import Recordset.Text.Alphanumeric
import Recordset.Text.Blank
import Recordset.Text.Digit
import Recordset.Text.Lowercase
set_option autoImplicit false

/-!
# Search patterns

A pattern is a regular expression over characters with anchors, captures and looks ahead and behind.
Its meaning is the list of the ways to match from a given spot (`Regex.ways`), the preferred way
first: an alternative prefers its left side, a repetition as many rounds as it can take, or as few.
Which way comes first matters as soon as a part of the pattern commits to the first one, or speaks
of what a group has captured.

Two ways that end in the same spot with the same captures are as good as one: whatever follows goes
on from there alike.  So a list of ways never needs to name a spot twice, and stays short.
-/

namespace Recordset

/-- Switches that change what a pattern means. -/
structure Switches where
  ignoreCase : Bool := false
  /-- the start and the end of each line are anchors too -/
  multiline : Bool := false
  /-- the dot stands for a line feed too -/
  dotAll : Bool := false
  /-- blanks and comments in the source mean nothing -/
  verbose : Bool := false
  /-- classes and letters are those of ASCII -/
  ascii : Bool := false
  deriving DecidableEq, Repr

/-- A set of characters inside brackets, or one of the named classes. -/
inductive CharSet where
  | single (c : Char)
  | range (low high : Char)
  | digit (ascii : Bool)
  | word (ascii : Bool)
  | blank (ascii : Bool)
  | complement (s : CharSet)
  deriving DecidableEq, Repr

/-- A place between characters at which a pattern can ask to be. -/
inductive Anchor where
  | textStart
  | lineStart
  | textEnd
  /-- the end of the text, before a final line feed too -/
  | finalLineEnd
  | lineEnd
  /-- between a character of a word and another one, or inside and outside when negated; an empty
  text has neither -/
  | boundary (ascii negated : Bool)
  deriving DecidableEq, Repr

/-- How many rounds a repetition prefers. -/
inductive Preference where
  | most
  | fewest
  /-- as many as it can, each taking the first way only -/
  | possessive
  deriving DecidableEq, Repr

/-- How characters are compared. -/
structure Letters where
  ignoreCase : Bool
  ascii : Bool
  deriving DecidableEq, Repr

/-- A regular expression. -/
inductive Regex where
  | empty
  | char (letters : Letters) (c : Char)
  /-- any character, a line feed only when asked for -/
  | any (lineFeed : Bool)
  /-- a character in one of the sets, or in none of them -/
  | oneOf (letters : Letters) (negated : Bool) (sets : List CharSet)
  | seq (first second : Regex)
  | alt (left right : Regex)
  /-- at least `least` and at most `most` rounds -/
  | repeat (body : Regex) (least : Nat) (most : Option Nat) (preference : Preference)
  /-- keeps what the body matched under a number -/
  | capture (group : Nat) (body : Regex)
  /-- the same text that a group captured -/
  | again (letters : Letters) (group : Nat)
  /-- one thing when a group has captured, and another when it has not -/
  | given (group : Nat) (yes no : Regex)
  /-- the first way only -/
  | commit (body : Regex)
  | anchor (a : Anchor)
  | ahead (negated : Bool) (body : Regex)
  /-- the body, `width` characters back -/
  | behind (negated : Bool) (width : Nat) (body : Regex)
  deriving DecidableEq, Repr

/-- Where a match has got to, and what its groups have captured: from where and to where. -/
structure Spot where
  place : Nat
  captures : List (Nat × Nat × Nat) := []
  deriving DecidableEq, Repr

namespace Spot

/-- What a group has captured. -/
def captured? (s : Spot) (group : Nat) : Option (Nat × Nat) :=
  (s.captures.find? (·.1 == group)).map (·.2)

/-- Captures ordered by their groups, with one more. -/
def insertCapture (group low high : Nat) : List (Nat × Nat × Nat) → List (Nat × Nat × Nat)
  | [] => [(group, low, high)]
  | c :: rest =>
    if c.1 < group then c :: insertCapture group low high rest
    else if c.1 = group then (group, low, high) :: rest
    else (group, low, high) :: c :: rest

/-- Keeps what lies between a place and this spot under the number of a group. -/
def capture (s : Spot) (group low : Nat) : Spot :=
  { s with captures := insertCapture group low s.place s.captures }

end Spot

namespace CharSet

/-- An ASCII digit, an ASCII letter or the low line. -/
def isAsciiWordPart (c : Char) : Bool := c.isAlphanum || c == '_'

/-- Membership of a character. -/
def contains : CharSet → Char → Bool
  | single a, c => a == c
  | range low high, c => low.toNat ≤ c.toNat && c.toNat ≤ high.toNat
  | digit ascii, c => if ascii then c.isDigit else Text.isDecimal c
  | word ascii, c => if ascii then isAsciiWordPart c else Text.isWordPart c
  | blank ascii, c =>
    if ascii then (9 ≤ c.toNat && c.toNat ≤ 13) || c == ' ' else Text.isBlank c
  | complement s, c => !s.contains c

end CharSet

namespace Letters

/-- Whether two characters are the same. -/
def same (l : Letters) (a b : Char) : Bool :=
  a == b || (l.ignoreCase &&
    if l.ascii then a.toLower == b.toLower else Text.smallForms a == Text.smallForms b)

/-- The characters that count as the same as one. -/
def spellings (l : Letters) (c : Char) : List Char :=
  if !l.ignoreCase then [c]
  else if l.ascii then [c, c.toLower, c.toUpper]
  else c :: Text.spellings c

end Letters

namespace Anchor

/-- Whether a word starts or ends at a place. -/
def atBoundary (ascii : Bool) (text : Array Char) (place : Nat) : Bool :=
  let isPart (c : Char) : Bool := (CharSet.word ascii).contains c
  let before := place ≠ 0 && (text[place - 1]?.map isPart).getD false
  let after := (text[place]?.map isPart).getD false
  before != after

/-- Whether a place is the one that the anchor asks for. -/
def holds (text : Array Char) (place : Nat) : Anchor → Bool
  | textStart => place = 0
  | lineStart => place = 0 || text[place - 1]? = some '\n'
  | textEnd => place = text.size
  | finalLineEnd => place = text.size || (place + 1 = text.size && text[place]? = some '\n')
  | lineEnd => place = text.size || text[place]? = some '\n'
  | boundary ascii negated => !text.isEmpty && atBoundary ascii text place != negated

end Anchor

namespace Regex

/-- Each spot once, where it comes up first. -/
def distinct (spots : List Spot) : List Spot :=
  (spots.foldl (fun acc s => if acc.contains s then acc else s :: acc) []).reverse

/-- The ways after exactly `rounds` rounds of a step. -/
def exactly (step : Spot → List Spot) : Nat → List Spot → List Spot
  | 0, spots => spots
  | rounds + 1, spots => exactly step rounds (distinct (spots.flatMap step))

/-- The spots that a repetition has set out from, with the rounds that it had left there, and the
ways that it has found, the last one first. -/
structure Tour where
  visited : List (Spot × Option Nat) := []
  found : List Spot := []

namespace Tour

/-- Whether so many rounds are not more than others; none stands for any number. -/
def atMost : Option Nat → Option Nat → Bool
  | _, none => true
  | none, some _ => false
  | some a, some b => a ≤ b

/-- Whether the repetition has set out from a spot before with as many rounds left. -/
def hasVisited (t : Tour) (s : Spot) (rounds : Option Nat) : Bool :=
  t.visited.any fun v => v.1 == s && atMost rounds v.2

/-- Adds a way. -/
def add (t : Tour) (s : Spot) : Tour :=
  if t.found.contains s then t else { t with found := s :: t.found }

/-- Goes on from a spot with more rounds of a step, or stops there, in the order preferred.  A round
that matches nothing is the last one. -/
def extend (step : Spot → List Spot) (fewest : Bool) : Nat → Option Nat → Tour → Spot → Tour
  | 0, _, t, s => t.add s
  | fuel + 1, rounds, t, s =>
    if t.hasVisited s rounds then t
    else
      let t := { t with visited := (s, rounds) :: t.visited }
      if rounds = some 0 then t.add s
      else
        let more (t : Tour) : Tour := (step s).foldl (fun t next =>
          if next.place = s.place then t.add next
          else extend step fewest fuel (rounds.map (· - 1)) t next) t
        if fewest then more (t.add s) else (more t).add s

end Tour

/-- The one way of a repetition that takes the first way of every round and as many rounds as it
can; a round that matches nothing is the last one. -/
def possess (step : Spot → List Spot) : Nat → Option Nat → Spot → Spot
  | 0, _, s => s
  | fuel + 1, rounds, s =>
    if rounds = some 0 then s
    else
      match (step s).head? with
      | none => s
      | some next =>
        if next.place = s.place then next else possess step fuel (rounds.map (· - 1)) next

/-- The first way of each of exactly `rounds` rounds, one after another. -/
def firsts (step : Spot → List Spot) : Nat → Spot → Option Spot
  | 0, s => some s
  | rounds + 1, s => (step s).head?.bind (firsts step rounds)

/-- The ways of a repetition. -/
def rounds (step : Spot → List Spot) (fuel least : Nat) (most : Option Nat) (p : Preference)
    (s : Spot) : List Spot :=
  let more := most.map (· - least)
  match p with
  | .possessive => ((firsts step least s).map (possess step fuel more)).toList
  | p =>
    let start := exactly step least [s]
    (start.foldl (Tour.extend step (p == .fewest) fuel more) {}).found.reverse

/-- One character further, if it is of the right kind. -/
def advance (text : Array Char) (s : Spot) (right : Char → Bool) : List Spot :=
  match text[s.place]? with
  | some c => if right c then [{ s with place := s.place + 1 }] else []
  | none => []

/-- Past the same characters that stand between two places. -/
def advanceAgain (text : Array Char) (l : Letters) (s : Spot) (low high : Nat) : List Spot :=
  let captured := (text.extract low high).toList
  let next := (text.extract s.place (s.place + (high - low))).toList
  if captured.length = next.length ∧ (captured.zip next).all fun (a, b) => l.same a b then
    [{ s with place := s.place + (high - low) }]
  else []

/-- The ways to match from a spot, the preferred one first. -/
def ways (text : Array Char) : Regex → Spot → List Spot
  | empty, s => [s]
  | char l c, s => advance text s (l.same c)
  | any lineFeed, s => advance text s fun d => lineFeed || d != '\n'
  | oneOf l negated sets, s =>
    advance text s fun d => (l.spellings d).any (fun e => sets.any (·.contains e)) != negated
  | seq first second, s => distinct ((ways text first s).flatMap (ways text second))
  | alt left right, s => distinct (ways text left s ++ ways text right s)
  | .repeat body least most p, s => rounds (ways text body) (text.size + 2) least most p s
  | capture group body, s => distinct ((ways text body s).map (·.capture group s.place))
  | again l group, s =>
    match s.captured? group with
    | some (low, high) => advanceAgain text l s low high
    | none => []
  | given group yes no, s => if (s.captured? group).isSome then ways text yes s else ways text no s
  | commit body, s => (ways text body s).head?.toList
  | .anchor a, s => if a.holds text s.place then [s] else []
  | ahead negated body, s =>
    match (ways text body s).head? with
    | some found => if negated then [] else [{ found with place := s.place }]
    | none => if negated then [s] else []
  | behind negated width body, s =>
    let found :=
      if s.place < width then none
      else (ways text body { s with place := s.place - width }).head?
    match found with
    | some found => if negated then [] else [{ found with place := s.place }]
    | none => if negated then [s] else []

/-- Whether a match starts somewhere in the text. -/
def foundIn (r : Regex) (text : String) : Bool :=
  let cs := text.toList.toArray
  (List.range (cs.size + 1)).any fun i => !(r.ways cs { place := i }).isEmpty

/-- The fewest characters that a match takes; a group takes what `widths` says. -/
def width (widths : List (Nat × Nat)) : Regex → Nat
  | char _ _ | any _ | oneOf _ _ _ => 1
  | seq first second => first.width widths + second.width widths
  | alt left right => min (left.width widths) (right.width widths)
  | .repeat body least _ _ => least * body.width widths
  | capture _ body | commit body => body.width widths
  | again _ group => (widths.lookup group).getD 0
  | given _ yes no => min (yes.width widths) (no.width widths)
  | empty | .anchor _ | ahead _ _ | behind _ _ _ => 0

/-- The groups that an expression speaks of. -/
def mentions : Regex → List Nat
  | again _ group => [group]
  | given group yes no => group :: (yes.mentions ++ no.mentions)
  | seq a b | alt a b => a.mentions ++ b.mentions
  | .repeat body _ _ _ | capture _ body | commit body | ahead _ body | behind _ _ body =>
    body.mentions
  | empty | char _ _ | any _ | oneOf _ _ _ | .anchor _ => []

/-- The expression with the captures of some groups only: one that nothing speaks of makes no
difference. -/
def keepCaptures (groups : List Nat) : Regex → Regex
  | capture group body =>
    if groups.contains group then capture group (body.keepCaptures groups)
    else body.keepCaptures groups
  | seq a b => seq (a.keepCaptures groups) (b.keepCaptures groups)
  | alt a b => alt (a.keepCaptures groups) (b.keepCaptures groups)
  | .repeat body least most p => .repeat (body.keepCaptures groups) least most p
  | given group yes no => given group (yes.keepCaptures groups) (no.keepCaptures groups)
  | commit body => commit (body.keepCaptures groups)
  | ahead negated body => ahead negated (body.keepCaptures groups)
  | behind negated width body => behind negated width (body.keepCaptures groups)
  | r => r

end Regex

/-- A compiled pattern: its source text, the switches it was made with, those that its source turns
on among them, the number of its groups and the names of some of them, and the expression read from
the source. -/
structure Pattern where
  source : String
  switches : Switches
  groups : Nat
  names : List (String × Nat)
  regex : Regex
  deriving DecidableEq, Repr

/-- Whether the pattern is found in a text. -/
def Pattern.foundIn (p : Pattern) (text : String) : Bool := p.regex.foundIn text

end Recordset
