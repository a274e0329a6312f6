set_option autoImplicit false

/-!
# Names of characters

The names that the Unicode standard gives to the characters of the Latin and Greek scripts and to
some signs.  A name is read without regard to the case of its letters.
-/

namespace Recordset.Text

/-- Code points and the names of their characters. -/
def characterNames : List (Nat × String) :=
  [(32, "SPACE"), (33, "EXCLAMATION MARK"), (34, "QUOTATION MARK"), (35, "NUMBER SIGN"),
   (36, "DOLLAR SIGN"), (37, "PERCENT SIGN"), (38, "AMPERSAND"), (39, "APOSTROPHE"),
   (40, "LEFT PARENTHESIS"), (41, "RIGHT PARENTHESIS"), (42, "ASTERISK"), (43, "PLUS SIGN"),
   (44, "COMMA"), (45, "HYPHEN-MINUS"), (46, "FULL STOP"), (47, "SOLIDUS"), (48, "DIGIT ZERO"),
   (49, "DIGIT ONE"), (50, "DIGIT TWO"), (51, "DIGIT THREE"), (52, "DIGIT FOUR"),
   (53, "DIGIT FIVE"), (54, "DIGIT SIX"), (55, "DIGIT SEVEN"), (56, "DIGIT EIGHT"),
   (57, "DIGIT NINE"), (58, "COLON"), (59, "SEMICOLON"), (60, "LESS-THAN SIGN"),
   (61, "EQUALS SIGN"), (62, "GREATER-THAN SIGN"), (63, "QUESTION MARK"), (64, "COMMERCIAL AT"),
   (65, "LATIN CAPITAL LETTER A"), (66, "LATIN CAPITAL LETTER B"), (67, "LATIN CAPITAL LETTER C"),
   (68, "LATIN CAPITAL LETTER D"), (69, "LATIN CAPITAL LETTER E"), (70, "LATIN CAPITAL LETTER F"),
   (71, "LATIN CAPITAL LETTER G"), (72, "LATIN CAPITAL LETTER H"), (73, "LATIN CAPITAL LETTER I"),
   (74, "LATIN CAPITAL LETTER J"), (75, "LATIN CAPITAL LETTER K"), (76, "LATIN CAPITAL LETTER L"),
   (77, "LATIN CAPITAL LETTER M"), (78, "LATIN CAPITAL LETTER N"), (79, "LATIN CAPITAL LETTER O"),
   (80, "LATIN CAPITAL LETTER P"), (81, "LATIN CAPITAL LETTER Q"), (82, "LATIN CAPITAL LETTER R"),
   (83, "LATIN CAPITAL LETTER S"), (84, "LATIN CAPITAL LETTER T"), (85, "LATIN CAPITAL LETTER U"),
   (86, "LATIN CAPITAL LETTER V"), (87, "LATIN CAPITAL LETTER W"), (88, "LATIN CAPITAL LETTER X"),
   (89, "LATIN CAPITAL LETTER Y"), (90, "LATIN CAPITAL LETTER Z"), (91, "LEFT SQUARE BRACKET"),
   (92, "REVERSE SOLIDUS"), (93, "RIGHT SQUARE BRACKET"), (94, "CIRCUMFLEX ACCENT"),
   (95, "LOW LINE"), (96, "GRAVE ACCENT"), (97, "LATIN SMALL LETTER A"),
   (98, "LATIN SMALL LETTER B"), (99, "LATIN SMALL LETTER C"), (100, "LATIN SMALL LETTER D"),
   (101, "LATIN SMALL LETTER E"), (102, "LATIN SMALL LETTER F"), (103, "LATIN SMALL LETTER G"),
   (104, "LATIN SMALL LETTER H"), (105, "LATIN SMALL LETTER I"), (106, "LATIN SMALL LETTER J"),
   (107, "LATIN SMALL LETTER K"), (108, "LATIN SMALL LETTER L"), (109, "LATIN SMALL LETTER M"),
   (110, "LATIN SMALL LETTER N"), (111, "LATIN SMALL LETTER O"), (112, "LATIN SMALL LETTER P"),
   (113, "LATIN SMALL LETTER Q"), (114, "LATIN SMALL LETTER R"), (115, "LATIN SMALL LETTER S"),
   (116, "LATIN SMALL LETTER T"), (117, "LATIN SMALL LETTER U"), (118, "LATIN SMALL LETTER V"),
   (119, "LATIN SMALL LETTER W"), (120, "LATIN SMALL LETTER X"), (121, "LATIN SMALL LETTER Y"),
   (122, "LATIN SMALL LETTER Z"), (123, "LEFT CURLY BRACKET"), (124, "VERTICAL LINE"),
   (125, "RIGHT CURLY BRACKET"), (126, "TILDE"), (160, "NO-BREAK SPACE"),
   (161, "INVERTED EXCLAMATION MARK"), (162, "CENT SIGN"), (163, "POUND SIGN"),
   (164, "CURRENCY SIGN"), (165, "YEN SIGN"), (166, "BROKEN BAR"), (167, "SECTION SIGN"),
   (168, "DIAERESIS"), (169, "COPYRIGHT SIGN"), (170, "FEMININE ORDINAL INDICATOR"),
   (171, "LEFT-POINTING DOUBLE ANGLE QUOTATION MARK"), (172, "NOT SIGN"), (173, "SOFT HYPHEN"),
   (174, "REGISTERED SIGN"), (175, "MACRON"), (176, "DEGREE SIGN"), (177, "PLUS-MINUS SIGN"),
   (178, "SUPERSCRIPT TWO"), (179, "SUPERSCRIPT THREE"), (180, "ACUTE ACCENT"),
   (181, "MICRO SIGN"), (182, "PILCROW SIGN"), (183, "MIDDLE DOT"), (184, "CEDILLA"),
   (185, "SUPERSCRIPT ONE"), (186, "MASCULINE ORDINAL INDICATOR"),
   (187, "RIGHT-POINTING DOUBLE ANGLE QUOTATION MARK"), (188, "VULGAR FRACTION ONE QUARTER"),
   (189, "VULGAR FRACTION ONE HALF"), (190, "VULGAR FRACTION THREE QUARTERS"),
   (191, "INVERTED QUESTION MARK"), (192, "LATIN CAPITAL LETTER A WITH GRAVE"),
   (193, "LATIN CAPITAL LETTER A WITH ACUTE"), (194, "LATIN CAPITAL LETTER A WITH CIRCUMFLEX"),
   (195, "LATIN CAPITAL LETTER A WITH TILDE"), (196, "LATIN CAPITAL LETTER A WITH DIAERESIS"),
   (197, "LATIN CAPITAL LETTER A WITH RING ABOVE"), (198, "LATIN CAPITAL LETTER AE"),
   (199, "LATIN CAPITAL LETTER C WITH CEDILLA"), (200, "LATIN CAPITAL LETTER E WITH GRAVE"),
   (201, "LATIN CAPITAL LETTER E WITH ACUTE"), (202, "LATIN CAPITAL LETTER E WITH CIRCUMFLEX"),
   (203, "LATIN CAPITAL LETTER E WITH DIAERESIS"), (204, "LATIN CAPITAL LETTER I WITH GRAVE"),
   (205, "LATIN CAPITAL LETTER I WITH ACUTE"), (206, "LATIN CAPITAL LETTER I WITH CIRCUMFLEX"),
   (207, "LATIN CAPITAL LETTER I WITH DIAERESIS"), (208, "LATIN CAPITAL LETTER ETH"),
   (209, "LATIN CAPITAL LETTER N WITH TILDE"), (210, "LATIN CAPITAL LETTER O WITH GRAVE"),
   (211, "LATIN CAPITAL LETTER O WITH ACUTE"), (212, "LATIN CAPITAL LETTER O WITH CIRCUMFLEX"),
   (213, "LATIN CAPITAL LETTER O WITH TILDE"), (214, "LATIN CAPITAL LETTER O WITH DIAERESIS"),
   (215, "MULTIPLICATION SIGN"), (216, "LATIN CAPITAL LETTER O WITH STROKE"),
   (217, "LATIN CAPITAL LETTER U WITH GRAVE"), (218, "LATIN CAPITAL LETTER U WITH ACUTE"),
   (219, "LATIN CAPITAL LETTER U WITH CIRCUMFLEX"), (220, "LATIN CAPITAL LETTER U WITH DIAERESIS"),
   (221, "LATIN CAPITAL LETTER Y WITH ACUTE"), (222, "LATIN CAPITAL LETTER THORN"),
   (223, "LATIN SMALL LETTER SHARP S"), (224, "LATIN SMALL LETTER A WITH GRAVE"),
   (225, "LATIN SMALL LETTER A WITH ACUTE"), (226, "LATIN SMALL LETTER A WITH CIRCUMFLEX"),
   (227, "LATIN SMALL LETTER A WITH TILDE"), (228, "LATIN SMALL LETTER A WITH DIAERESIS"),
   (229, "LATIN SMALL LETTER A WITH RING ABOVE"), (230, "LATIN SMALL LETTER AE"),
   (231, "LATIN SMALL LETTER C WITH CEDILLA"), (232, "LATIN SMALL LETTER E WITH GRAVE"),
   (233, "LATIN SMALL LETTER E WITH ACUTE"), (234, "LATIN SMALL LETTER E WITH CIRCUMFLEX"),
   (235, "LATIN SMALL LETTER E WITH DIAERESIS"), (236, "LATIN SMALL LETTER I WITH GRAVE"),
   (237, "LATIN SMALL LETTER I WITH ACUTE"), (238, "LATIN SMALL LETTER I WITH CIRCUMFLEX"),
   (239, "LATIN SMALL LETTER I WITH DIAERESIS"), (240, "LATIN SMALL LETTER ETH"),
   (241, "LATIN SMALL LETTER N WITH TILDE"), (242, "LATIN SMALL LETTER O WITH GRAVE"),
   (243, "LATIN SMALL LETTER O WITH ACUTE"), (244, "LATIN SMALL LETTER O WITH CIRCUMFLEX"),
   (245, "LATIN SMALL LETTER O WITH TILDE"), (246, "LATIN SMALL LETTER O WITH DIAERESIS"),
   (247, "DIVISION SIGN"), (248, "LATIN SMALL LETTER O WITH STROKE"),
   (249, "LATIN SMALL LETTER U WITH GRAVE"), (250, "LATIN SMALL LETTER U WITH ACUTE"),
   (251, "LATIN SMALL LETTER U WITH CIRCUMFLEX"), (252, "LATIN SMALL LETTER U WITH DIAERESIS"),
   (253, "LATIN SMALL LETTER Y WITH ACUTE"), (254, "LATIN SMALL LETTER THORN"),
   (255, "LATIN SMALL LETTER Y WITH DIAERESIS"), (256, "LATIN CAPITAL LETTER A WITH MACRON"),
   (257, "LATIN SMALL LETTER A WITH MACRON"), (258, "LATIN CAPITAL LETTER A WITH BREVE"),
   (259, "LATIN SMALL LETTER A WITH BREVE"), (260, "LATIN CAPITAL LETTER A WITH OGONEK"),
   (261, "LATIN SMALL LETTER A WITH OGONEK"), (262, "LATIN CAPITAL LETTER C WITH ACUTE"),
   (263, "LATIN SMALL LETTER C WITH ACUTE"), (264, "LATIN CAPITAL LETTER C WITH CIRCUMFLEX"),
   (265, "LATIN SMALL LETTER C WITH CIRCUMFLEX"), (266, "LATIN CAPITAL LETTER C WITH DOT ABOVE"),
   (267, "LATIN SMALL LETTER C WITH DOT ABOVE"), (268, "LATIN CAPITAL LETTER C WITH CARON"),
   (269, "LATIN SMALL LETTER C WITH CARON"), (270, "LATIN CAPITAL LETTER D WITH CARON"),
   (271, "LATIN SMALL LETTER D WITH CARON"), (272, "LATIN CAPITAL LETTER D WITH STROKE"),
   (273, "LATIN SMALL LETTER D WITH STROKE"), (274, "LATIN CAPITAL LETTER E WITH MACRON"),
   (275, "LATIN SMALL LETTER E WITH MACRON"), (276, "LATIN CAPITAL LETTER E WITH BREVE"),
   (277, "LATIN SMALL LETTER E WITH BREVE"), (278, "LATIN CAPITAL LETTER E WITH DOT ABOVE"),
   (279, "LATIN SMALL LETTER E WITH DOT ABOVE"), (280, "LATIN CAPITAL LETTER E WITH OGONEK"),
   (281, "LATIN SMALL LETTER E WITH OGONEK"), (282, "LATIN CAPITAL LETTER E WITH CARON"),
   (283, "LATIN SMALL LETTER E WITH CARON"), (284, "LATIN CAPITAL LETTER G WITH CIRCUMFLEX"),
   (285, "LATIN SMALL LETTER G WITH CIRCUMFLEX"), (286, "LATIN CAPITAL LETTER G WITH BREVE"),
   (287, "LATIN SMALL LETTER G WITH BREVE"), (288, "LATIN CAPITAL LETTER G WITH DOT ABOVE"),
   (289, "LATIN SMALL LETTER G WITH DOT ABOVE"), (290, "LATIN CAPITAL LETTER G WITH CEDILLA"),
   (291, "LATIN SMALL LETTER G WITH CEDILLA"), (292, "LATIN CAPITAL LETTER H WITH CIRCUMFLEX"),
   (293, "LATIN SMALL LETTER H WITH CIRCUMFLEX"), (294, "LATIN CAPITAL LETTER H WITH STROKE"),
   (295, "LATIN SMALL LETTER H WITH STROKE"), (296, "LATIN CAPITAL LETTER I WITH TILDE"),
   (297, "LATIN SMALL LETTER I WITH TILDE"), (298, "LATIN CAPITAL LETTER I WITH MACRON"),
   (299, "LATIN SMALL LETTER I WITH MACRON"), (300, "LATIN CAPITAL LETTER I WITH BREVE"),
   (301, "LATIN SMALL LETTER I WITH BREVE"), (302, "LATIN CAPITAL LETTER I WITH OGONEK"),
   (303, "LATIN SMALL LETTER I WITH OGONEK"), (304, "LATIN CAPITAL LETTER I WITH DOT ABOVE"),
   (305, "LATIN SMALL LETTER DOTLESS I"), (306, "LATIN CAPITAL LIGATURE IJ"),
   (307, "LATIN SMALL LIGATURE IJ"), (308, "LATIN CAPITAL LETTER J WITH CIRCUMFLEX"),
   (309, "LATIN SMALL LETTER J WITH CIRCUMFLEX"), (310, "LATIN CAPITAL LETTER K WITH CEDILLA"),
   (311, "LATIN SMALL LETTER K WITH CEDILLA"), (312, "LATIN SMALL LETTER KRA"),
   (313, "LATIN CAPITAL LETTER L WITH ACUTE"), (314, "LATIN SMALL LETTER L WITH ACUTE"),
   (315, "LATIN CAPITAL LETTER L WITH CEDILLA"), (316, "LATIN SMALL LETTER L WITH CEDILLA"),
   (317, "LATIN CAPITAL LETTER L WITH CARON"), (318, "LATIN SMALL LETTER L WITH CARON"),
   (319, "LATIN CAPITAL LETTER L WITH MIDDLE DOT"), (320, "LATIN SMALL LETTER L WITH MIDDLE DOT"),
   (321, "LATIN CAPITAL LETTER L WITH STROKE"), (322, "LATIN SMALL LETTER L WITH STROKE"),
   (323, "LATIN CAPITAL LETTER N WITH ACUTE"), (324, "LATIN SMALL LETTER N WITH ACUTE"),
   (325, "LATIN CAPITAL LETTER N WITH CEDILLA"), (326, "LATIN SMALL LETTER N WITH CEDILLA"),
   (327, "LATIN CAPITAL LETTER N WITH CARON"), (328, "LATIN SMALL LETTER N WITH CARON"),
   (329, "LATIN SMALL LETTER N PRECEDED BY APOSTROPHE"), (330, "LATIN CAPITAL LETTER ENG"),
   (331, "LATIN SMALL LETTER ENG"), (332, "LATIN CAPITAL LETTER O WITH MACRON"),
   (333, "LATIN SMALL LETTER O WITH MACRON"), (334, "LATIN CAPITAL LETTER O WITH BREVE"),
   (335, "LATIN SMALL LETTER O WITH BREVE"), (336, "LATIN CAPITAL LETTER O WITH DOUBLE ACUTE"),
   (337, "LATIN SMALL LETTER O WITH DOUBLE ACUTE"), (338, "LATIN CAPITAL LIGATURE OE"),
   (339, "LATIN SMALL LIGATURE OE"), (340, "LATIN CAPITAL LETTER R WITH ACUTE"),
   (341, "LATIN SMALL LETTER R WITH ACUTE"), (342, "LATIN CAPITAL LETTER R WITH CEDILLA"),
   (343, "LATIN SMALL LETTER R WITH CEDILLA"), (344, "LATIN CAPITAL LETTER R WITH CARON"),
   (345, "LATIN SMALL LETTER R WITH CARON"), (346, "LATIN CAPITAL LETTER S WITH ACUTE"),
   (347, "LATIN SMALL LETTER S WITH ACUTE"), (348, "LATIN CAPITAL LETTER S WITH CIRCUMFLEX"),
   (349, "LATIN SMALL LETTER S WITH CIRCUMFLEX"), (350, "LATIN CAPITAL LETTER S WITH CEDILLA"),
   (351, "LATIN SMALL LETTER S WITH CEDILLA"), (352, "LATIN CAPITAL LETTER S WITH CARON"),
   (353, "LATIN SMALL LETTER S WITH CARON"), (354, "LATIN CAPITAL LETTER T WITH CEDILLA"),
   (355, "LATIN SMALL LETTER T WITH CEDILLA"), (356, "LATIN CAPITAL LETTER T WITH CARON"),
   (357, "LATIN SMALL LETTER T WITH CARON"), (358, "LATIN CAPITAL LETTER T WITH STROKE"),
   (359, "LATIN SMALL LETTER T WITH STROKE"), (360, "LATIN CAPITAL LETTER U WITH TILDE"),
   (361, "LATIN SMALL LETTER U WITH TILDE"), (362, "LATIN CAPITAL LETTER U WITH MACRON"),
   (363, "LATIN SMALL LETTER U WITH MACRON"), (364, "LATIN CAPITAL LETTER U WITH BREVE"),
   (365, "LATIN SMALL LETTER U WITH BREVE"), (366, "LATIN CAPITAL LETTER U WITH RING ABOVE"),
   (367, "LATIN SMALL LETTER U WITH RING ABOVE"),
   (368, "LATIN CAPITAL LETTER U WITH DOUBLE ACUTE"),
   (369, "LATIN SMALL LETTER U WITH DOUBLE ACUTE"), (370, "LATIN CAPITAL LETTER U WITH OGONEK"),
   (371, "LATIN SMALL LETTER U WITH OGONEK"), (372, "LATIN CAPITAL LETTER W WITH CIRCUMFLEX"),
   (373, "LATIN SMALL LETTER W WITH CIRCUMFLEX"), (374, "LATIN CAPITAL LETTER Y WITH CIRCUMFLEX"),
   (375, "LATIN SMALL LETTER Y WITH CIRCUMFLEX"), (376, "LATIN CAPITAL LETTER Y WITH DIAERESIS"),
   (377, "LATIN CAPITAL LETTER Z WITH ACUTE"), (378, "LATIN SMALL LETTER Z WITH ACUTE"),
   (379, "LATIN CAPITAL LETTER Z WITH DOT ABOVE"), (380, "LATIN SMALL LETTER Z WITH DOT ABOVE"),
   (381, "LATIN CAPITAL LETTER Z WITH CARON"), (382, "LATIN SMALL LETTER Z WITH CARON"),
   (383, "LATIN SMALL LETTER LONG S"), (913, "GREEK CAPITAL LETTER ALPHA"),
   (914, "GREEK CAPITAL LETTER BETA"), (915, "GREEK CAPITAL LETTER GAMMA"),
   (916, "GREEK CAPITAL LETTER DELTA"), (917, "GREEK CAPITAL LETTER EPSILON"),
   (918, "GREEK CAPITAL LETTER ZETA"), (919, "GREEK CAPITAL LETTER ETA"),
   (920, "GREEK CAPITAL LETTER THETA"), (921, "GREEK CAPITAL LETTER IOTA"),
   (922, "GREEK CAPITAL LETTER KAPPA"), (923, "GREEK CAPITAL LETTER LAMDA"),
   (924, "GREEK CAPITAL LETTER MU"), (925, "GREEK CAPITAL LETTER NU"),
   (926, "GREEK CAPITAL LETTER XI"), (927, "GREEK CAPITAL LETTER OMICRON"),
   (928, "GREEK CAPITAL LETTER PI"), (929, "GREEK CAPITAL LETTER RHO"),
   (931, "GREEK CAPITAL LETTER SIGMA"), (932, "GREEK CAPITAL LETTER TAU"),
   (933, "GREEK CAPITAL LETTER UPSILON"), (934, "GREEK CAPITAL LETTER PHI"),
   (935, "GREEK CAPITAL LETTER CHI"), (936, "GREEK CAPITAL LETTER PSI"),
   (937, "GREEK CAPITAL LETTER OMEGA"), (938, "GREEK CAPITAL LETTER IOTA WITH DIALYTIKA"),
   (939, "GREEK CAPITAL LETTER UPSILON WITH DIALYTIKA"),
   (940, "GREEK SMALL LETTER ALPHA WITH TONOS"), (941, "GREEK SMALL LETTER EPSILON WITH TONOS"),
   (942, "GREEK SMALL LETTER ETA WITH TONOS"), (943, "GREEK SMALL LETTER IOTA WITH TONOS"),
   (944, "GREEK SMALL LETTER UPSILON WITH DIALYTIKA AND TONOS"), (945, "GREEK SMALL LETTER ALPHA"),
   (946, "GREEK SMALL LETTER BETA"), (947, "GREEK SMALL LETTER GAMMA"),
   (948, "GREEK SMALL LETTER DELTA"), (949, "GREEK SMALL LETTER EPSILON"),
   (950, "GREEK SMALL LETTER ZETA"), (951, "GREEK SMALL LETTER ETA"),
   (952, "GREEK SMALL LETTER THETA"), (953, "GREEK SMALL LETTER IOTA"),
   (954, "GREEK SMALL LETTER KAPPA"), (955, "GREEK SMALL LETTER LAMDA"),
   (956, "GREEK SMALL LETTER MU"), (957, "GREEK SMALL LETTER NU"), (958, "GREEK SMALL LETTER XI"),
   (959, "GREEK SMALL LETTER OMICRON"), (960, "GREEK SMALL LETTER PI"),
   (961, "GREEK SMALL LETTER RHO"), (962, "GREEK SMALL LETTER FINAL SIGMA"),
   (963, "GREEK SMALL LETTER SIGMA"), (964, "GREEK SMALL LETTER TAU"),
   (965, "GREEK SMALL LETTER UPSILON"), (966, "GREEK SMALL LETTER PHI"),
   (967, "GREEK SMALL LETTER CHI"), (968, "GREEK SMALL LETTER PSI"),
   (969, "GREEK SMALL LETTER OMEGA"), (8211, "EN DASH"), (8212, "EM DASH"),
   (8216, "LEFT SINGLE QUOTATION MARK"), (8217, "RIGHT SINGLE QUOTATION MARK"),
   (8220, "LEFT DOUBLE QUOTATION MARK"), (8221, "RIGHT DOUBLE QUOTATION MARK"), (8226, "BULLET"),
   (8230, "HORIZONTAL ELLIPSIS"), (8364, "EURO SIGN"), (8482, "TRADE MARK SIGN"),
   (8592, "LEFTWARDS ARROW"), (8593, "UPWARDS ARROW"), (8594, "RIGHTWARDS ARROW"),
   (8595, "DOWNWARDS ARROW"), (8722, "MINUS SIGN"), (8734, "INFINITY"), (8776, "ALMOST EQUAL TO"),
   (8800, "NOT EQUAL TO"), (8804, "LESS-THAN OR EQUAL TO"), (8805, "GREATER-THAN OR EQUAL TO"),
   (9731, "SNOWMAN"), (10003, "CHECK MARK"), (128512, "GRINNING FACE")]

/-- The character of a name. -/
def characterNamed? (name : String) : Option Char :=
  let name := name.map Char.toUpper
  (characterNames.find? (·.2 == name)).map fun (n, _) => Char.ofNat n

end Recordset.Text
