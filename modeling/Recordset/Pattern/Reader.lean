import Recordset.Pattern.Basic
import Recordset.Text.CharacterName
import Recordset.Text.Integer
set_option autoImplicit false

/-!
# Reading patterns

The written form of a pattern: alternatives between bars, each a sequence of atoms with an optional
repetition.  An atom is a character, an escape, a dot, a bracketed set, an anchor or a group.  The
reader takes what it reads off the rest of the source; `fuel` bounds the depth and is never less
than what is left to read.
-/

namespace Recordset.Pattern

/-- What a reader knows: the rest of the source, how many groups have been opened, their names, and
how wide the closed ones are. -/
structure Reader where
  rest : List Char
  groups : Nat := 0
  names : List (String × Nat) := []
  widths : List (Nat × Nat) := []

/-- A reader of a part of a source; none when the source is no pattern. -/
abbrev Read (α : Type) := StateT Reader Option α

/-- The rest of the source. -/
def rest : Read (List Char) := return (← get).rest

/-- Goes on at another place of the source. -/
def goTo (cs : List Char) : Read Unit := modify fun r => { r with rest := cs }

/-- The value of hexadecimal digits. -/
def hexValue? (c : Char) : Option Nat :=
  if '0' ≤ c ∧ c ≤ '9' then some (c.toNat - 48)
  else if 'a' ≤ c ∧ c ≤ 'f' then some (c.toNat - 87)
  else if 'A' ≤ c ∧ c ≤ 'F' then some (c.toNat - 55)
  else none

/-- The character with the code point that exactly `width` hexadecimal digits give. -/
def readHex (width : Nat) (cs : List Char) : Option (Char × List Char) :=
  let ds := (cs.take width).filterMap hexValue?
  if ds.length = width then
    some (Char.ofNat (ds.foldl (fun n d => 16 * n + d) 0), cs.drop width)
  else none

/-- An octal digit. -/
def isOctal (c : Char) : Bool := '0' ≤ c && c ≤ '7'

/-- The character with the code point that up to `width` octal digits give, none being zero. -/
def readOctal (width : Nat) (cs : List Char) : Char × List Char :=
  let ds := (cs.take width).takeWhile isOctal
  (Char.ofNat (ds.foldl (fun n c => 8 * n + (c.toNat - 48)) 0), cs.drop ds.length)

/-- The character whose name stands in braces. -/
def readName (cs : List Char) : Option (Char × List Char) :=
  match cs with
  | '\x7b' :: more =>
    (Text.characterNamed? (String.ofList (more.takeWhile (· ≠ '\x7d')))).map fun c =>
      (c, (more.dropWhile (· ≠ '\x7d')).drop 1)
  | _ => none

/-- The class that an escape letter names. -/
def classEscape? (ascii : Bool) : Char → Option CharSet
  | 'd' => some (.digit ascii)
  | 'D' => some (.complement (.digit ascii))
  | 'w' => some (.word ascii)
  | 'W' => some (.complement (.word ascii))
  | 's' => some (.blank ascii)
  | 'S' => some (.complement (.blank ascii))
  | _ => none

/-- The character that an escape stands for; `rest` follows the escaped character `c`. -/
def charEscape (c : Char) (rest : List Char) : Option (Char × List Char) :=
  match c with
  | 'n' => some ('\n', rest)
  | 't' => some ('\t', rest)
  | 'r' => some ('\r', rest)
  | 'f' => some (Char.ofNat 12, rest)
  | 'v' => some (Char.ofNat 11, rest)
  | 'a' => some (Char.ofNat 7, rest)
  | '0' => some (readOctal 2 rest)
  | 'x' => readHex 2 rest
  | 'u' => readHex 4 rest
  | 'U' => readHex 8 rest
  | 'N' => readName rest
  | _ => if c.isAlphanum then none else some (c, rest)

/-- One member of a bracketed set, not yet extended to a range. -/
def readMember (ascii : Bool) : List Char → Option (CharSet × List Char)
  | '\\' :: c :: rest =>
    match classEscape? ascii c with
    | some s => some (s, rest)
    | none =>
      if c = 'b' then some (.single (Char.ofNat 8), rest)
      else if isOctal c then
        let (d, more) := readOctal 3 (c :: rest)
        some (.single d, more)
      else (charEscape c rest).map fun (d, more) => (.single d, more)
  | c :: rest => some (.single c, rest)
  | [] => none

/-- One member of a bracketed set, extended to a range when a hyphen and an end follow. -/
def readItem (ascii : Bool) (cs : List Char) : Option (CharSet × List Char) := do
  let (low, rest) ← readMember ascii cs
  match low, rest with
  | .single a, '-' :: c :: more =>
    if c = ']' then return (low, rest)
    else
      match ← readMember ascii (c :: more) with
      | (.single b, after) => return (.range a b, after)
      | _ => none
  | _, _ => return (low, rest)

/-- The members of a bracketed set up to the closing bracket, which is a member when it is the
first one. -/
def readMembers (ascii : Bool) : Nat → Bool → List Char → Option (List CharSet × List Char)
  | 0, _, _ => none
  | fuel + 1, first, cs =>
    match cs, first with
    | ']' :: rest, false => some ([], rest)
    | _, _ => do
      let (item, rest) ← readItem ascii cs
      let (items, more) ← readMembers ascii fuel false rest
      return (item :: items, more)

/-- The digits at the start. -/
def readCount (cs : List Char) : Option Nat × List Char :=
  let ds := (cs.takeWhile Char.isDigit).map fun c => c.toNat - 48
  (if ds.isEmpty then none else some (Text.ofDigits ds), cs.dropWhile Char.isDigit)

/-- The bounds of a repetition in braces, when the braces hold some. -/
def readBounds (cs : List Char) : Option ((Nat × Option Nat) × List Char) :=
  let (least, rest) := readCount cs
  match rest with
  | '\x7d' :: more => least.map fun n => ((n, some n), more)
  | ',' :: more =>
    let (most, last) := readCount more
    match last with
    | '\x7d' :: after => some ((least.getD 0, most), after)
    | _ => none
  | _ => none

/-- The mark of a repetition that takes as little as it can, or that gives nothing back. -/
def readPreference : List Char → Preference × List Char
  | '?' :: rest => (.fewest, rest)
  | '+' :: rest => (.possessive, rest)
  | rest => (.most, rest)

/-- The bounds of the repetition at the start, if there is one. -/
def readRepeat : List Char → Option ((Nat × Option Nat) × List Char)
  | '*' :: rest => some ((0, none), rest)
  | '+' :: rest => some ((1, none), rest)
  | '?' :: rest => some ((0, some 1), rest)
  | '\x7b' :: rest => readBounds rest
  | _ => none

/-- Turns a switch on or off. -/
def setSwitch (on : Bool) (s : Switches) : Char → Option Switches
  | 'i' => some { s with ignoreCase := on }
  | 'm' => some { s with multiline := on }
  | 's' => some { s with dotAll := on }
  | 'x' => some { s with verbose := on }
  | 'a' => some { s with ascii := on }
  | 'u' => some { s with ascii := false }
  | _ => none

/-- Reads switches to turn on and, behind a hyphen, to turn off. -/
def readSwitches (on : Bool) (s : Switches) : List Char → Option (Switches × List Char)
  | '-' :: rest => if on then readSwitches false s rest else none
  | c :: rest =>
    match setSwitch on s c with
    | some s => readSwitches on s rest
    | none => some (s, c :: rest)
  | [] => none

/-- What means nothing in a verbose pattern: a blank, or a comment up to the end of its line. -/
def skipIdle : List Char → List Char
  | [] => []
  | c :: rest =>
    if c = '#' then rest.dropWhile (· ≠ '\n')
    else if c = ' ' ∨ (9 ≤ c.toNat ∧ c.toNat ≤ 13) then rest
    else c :: rest

/-- How letters are compared under the switches. -/
def letters (s : Switches) : Letters := ⟨s.ignoreCase, s.ascii⟩

/-- The group of a number or a name. -/
def groupOf (name : List Char) : Read Nat := do
  match readCount name with
  | (some n, []) => return n
  | _ => StateT.lift ((← get).names.lookup (String.ofList name))

/-- An escape outside of brackets. -/
def readEscape (s : Switches) (c : Char) (more : List Char) : Read Regex := do
  let at' (r : Regex) (cs : List Char) : Read Regex := do
    goTo cs
    return r
  match c with
  | 'A' => at' (.anchor .textStart) more
  | 'Z' => at' (.anchor .textEnd) more
  | 'b' => at' (.anchor (.boundary s.ascii false)) more
  | 'B' => at' (.anchor (.boundary s.ascii true)) more
  | _ =>
    match classEscape? s.ascii c with
    | some set => at' (.oneOf ⟨false, s.ascii⟩ false [set]) more
    | none =>
      if c.isDigit ∧ c ≠ '0' then
        let ds := (c :: more).takeWhile Char.isDigit
        if isOctal c ∧ (ds.take 3).length = 3 ∧ (ds.take 3).all isOctal then
          let (d, more) := readOctal 3 (c :: more)
          at' (.char (letters s) d) more
        else
          let ds := ds.take 2
          at' (.again (letters s) (Text.ofDigits (ds.map fun d => d.toNat - 48)))
            ((c :: more).drop ds.length)
      else
        let (d, more) ← StateT.lift (charEscape c more)
        at' (.char (letters s) d) more

/-- Takes the closing bracket of a group. -/
def close : Read Unit := do
  match ← rest with
  | ')' :: more => goTo more
  | _ => failure

/-- The atoms of a sequence, the last one first, as an expression. -/
def sequenceOf (atoms : List Regex) : Regex := atoms.foldl (fun r a => .seq a r) .empty

/-- What a group is for. -/
inductive Role where
  | plain
  | capture (name : Option (List Char))
  | ahead (negated : Bool)
  | behind (negated : Bool)
  | commit
  | given (name : List Char)
  | again (name : List Char)
  | comment

/-- Reads the characters up to a mark, and drops the mark. -/
def spanTo (mark : Char) (cs : List Char) : List Char × List Char :=
  (cs.takeWhile (· ≠ mark), (cs.dropWhile (· ≠ mark)).drop 1)

/-- What follows the opening of a group: what the group is for, the switches inside of it, and the
source of its body. -/
def readRole (s : Switches) : List Char → Option (Role × Switches × List Char)
  | '?' :: ':' :: rest => some (.plain, s, rest)
  | '?' :: '=' :: rest => some (.ahead false, s, rest)
  | '?' :: '!' :: rest => some (.ahead true, s, rest)
  | '?' :: '<' :: '=' :: rest => some (.behind false, s, rest)
  | '?' :: '<' :: '!' :: rest => some (.behind true, s, rest)
  | '?' :: '>' :: rest => some (.commit, s, rest)
  | '?' :: '#' :: rest => some (.comment, s, (spanTo ')' rest).2)
  | '?' :: 'P' :: '<' :: rest =>
    let (name, more) := spanTo '>' rest
    some (.capture (some name), s, more)
  | '?' :: 'P' :: '=' :: rest =>
    let (name, more) := spanTo ')' rest
    some (.again name, s, more)
  | '?' :: '(' :: rest =>
    let (name, more) := spanTo ')' rest
    some (.given name, s, more)
  | '?' :: rest =>
    match readSwitches true s rest with
    | some (s, ':' :: more) => some (.plain, s, more)
    | _ => none
  | rest => some (.capture none, s, rest)

/-- Opens a group that captures, and gives its number. -/
def openGroup (name : Option (List Char)) : Read Nat := do
  let r ← get
  let group := r.groups + 1
  let names := match name with
    | some n => (String.ofList n, group) :: r.names
    | none => r.names
  set { r with groups := group, names }
  return group

mutual
/-- Alternatives between bars, up to a closing bracket or the end. -/
def readAlternatives : Nat → Switches → Read Regex
  | 0, _ => failure
  | fuel + 1, s => do
    let first ← readSequence fuel s []
    match ← rest with
    | '|' :: more =>
      goTo more
      return .alt first (← readAlternatives fuel s)
    | _ => return first

/-- Atoms one after another; `atoms` have been read already, the last one first. -/
def readSequence : Nat → Switches → List Regex → Read Regex
  | 0, _, _ => failure
  | fuel + 1, s, atoms => do
    let cs ← rest
    let skipped := if s.verbose then skipIdle cs else cs
    if skipped.length < cs.length then
      goTo skipped
      readSequence fuel s atoms
    else
      match cs with
      | [] | ')' :: _ | '|' :: _ => return sequenceOf atoms
      | _ =>
        match readRepeat cs, atoms with
        | some ((least, most), more), atom :: before => do
          let (preference, more) := readPreference more
          goTo more
          readSequence fuel s (.repeat atom least most preference :: before)
        | some _, [] => failure
        | none, _ => do
          match ← readAtom fuel s with
          | some atom => readSequence fuel s (atom :: atoms)
          | none => readSequence fuel s atoms

/-- One atom; a comment is none. -/
def readAtom : Nat → Switches → Read (Option Regex)
  | 0, _ => failure
  | fuel + 1, s => do
    let one (r : Regex) (cs : List Char) : Read (Option Regex) := do
      goTo cs
      return some r
    match ← rest with
    | '.' :: more => one (.any s.dotAll) more
    | '^' :: more => one (.anchor (if s.multiline then .lineStart else .textStart)) more
    | '$' :: more => one (.anchor (if s.multiline then .lineEnd else .finalLineEnd)) more
    | '(' :: more => do
      let (role, inner, body) ← StateT.lift (readRole s more)
      goTo body
      readGroup fuel inner role
    | '[' :: '^' :: more => do
      let (sets, last) ← StateT.lift (readMembers s.ascii (more.length + 1) true more)
      one (.oneOf (letters s) true sets) last
    | '[' :: more => do
      let (sets, last) ← StateT.lift (readMembers s.ascii (more.length + 1) true more)
      one (.oneOf (letters s) false sets) last
    | '\\' :: c :: more => return some (← readEscape s c more)
    | '*' :: _ | '+' :: _ | '?' :: _ | ['\\'] | [] => failure
    | c :: more => one (.char (letters s) c) more

/-- The body of a group and its closing bracket. -/
def readGroup : Nat → Switches → Role → Read (Option Regex)
  | 0, _, _ => failure
  | fuel + 1, s, role => do
    let body : Read Regex := do
      let r ← readAlternatives fuel s
      close
      return r
    match role with
    | .plain => return some (← body)
    | .ahead negated => return some (.ahead negated (← body))
    | .behind negated => do
      let r ← body
      return some (.behind negated (r.width (← get).widths) r)
    | .commit => return some (.commit (← body))
    | .comment => return none
    | .again name => return some (.again (letters s) (← groupOf name))
    | .capture name => do
      let group ← openGroup name
      let r ← body
      modify fun reader => { reader with widths := (group, r.width reader.widths) :: reader.widths }
      return some (.capture group r)
    | .given name => do
      let group ← groupOf name
      let yes ← readSequence fuel s []
      match ← rest with
      | '|' :: more => do
        goTo more
        let no ← readSequence fuel s []
        close
        return some (.given group yes no)
      | _ => do
        close
        return some (.given group yes .empty)
end

/-- The switches that a source turns on at its start, and the source after that. -/
def readMarks : Nat → Switches → List Char → Switches × List Char
  | 0, s, cs => (s, cs)
  | fuel + 1, s, cs =>
    let skipped := if s.verbose then skipIdle cs else cs
    if skipped.length < cs.length then readMarks fuel s skipped
    else
      match cs with
      | '(' :: '?' :: more =>
        match readSwitches true s more with
        | some (s', ')' :: rest) => readMarks fuel s' rest
        | _ => (s, cs)
      | _ => (s, cs)

/-- Reads a whole pattern; none when its source is not a pattern. -/
def compile? (source : String) (ignoreCase : Bool) : Option Pattern :=
  let cs := source.toList
  let (switches, body) := readMarks (cs.length + 1) { ignoreCase } cs
  match (readAlternatives (4 * cs.length + 4) switches).run { rest := body } with
  | some (r, { rest := [], groups, names, .. }) =>
    some ⟨source, switches, groups, names.reverse, r.keepCaptures r.mentions⟩
  | _ => none

end Recordset.Pattern
