import Recordset.Number.Fixed
import Recordset.Value.Access
import Recordset.Value.Shown
set_option autoImplicit false

/-!
# Filling templates

A template is a text or a byte string with conversions in it, each a percent sign, a key in
brackets, flags, a width, a precision and a letter.  The letter says how the next argument is
written, and everything but the letter may be left out.  The arguments are the elements of a tuple,
or one value; a key asks for an entry of a mapping in place of the next argument.  An argument that
no conversion has asked for is a fault, unless the arguments are a mapping.
-/

namespace Recordset.Template

/-- What a template is made of. -/
inductive Medium where
  | text
  | bytes
  deriving DecidableEq, Repr

/-- How an argument is to be written. -/
structure Conversion where
  left : Bool := false
  plus : Bool := false
  blank : Bool := false
  alternate : Bool := false
  zero : Bool := false
  width : Nat := 0
  precision : Option Nat := none
  letter : Char := 's'

/-- The arguments that are left, and the mapping that keys ask. -/
structure Supply where
  args : List Value
  mapping : Option Value

/-- The next argument. -/
def Supply.next (s : Supply) : Except Error (Value × Supply) :=
  match s.args with
  | v :: rest => .ok (v, { s with args := rest })
  | [] => .error (.fault .type)

/-- The widths and precisions from this one on are refused. -/
def sizeLimit : Nat := 1 <<< 63

/-- The greatest width or precision that there is room for. -/
def roomLimit : Nat := 100000000

/-- The precisions from this one on are refused. -/
def precisionLimit : Nat := 1 <<< 31

/-- A size below a limit; one that there is no room for is a fault too. -/
def checkSize (limit : Nat) (beyond : Fault) (n : Nat) : Except Error Nat :=
  if limit ≤ n then .error (.fault beyond)
  else if roomLimit < n then .error (.fault .memory)
  else .ok n

/-- Reads flags. -/
def readFlags (c : Conversion) : List Char → Conversion × List Char
  | '-' :: rest => readFlags { c with left := true } rest
  | '+' :: rest => readFlags { c with plus := true } rest
  | ' ' :: rest => readFlags { c with blank := true } rest
  | '#' :: rest => readFlags { c with alternate := true } rest
  | '0' :: rest => readFlags { c with zero := true } rest
  | rest => (c, rest)

/-- Reads the digits of a size. -/
def readSize (limit : Nat) (cs : List Char) : Except Error (Option Nat × List Char) := do
  let ds := cs.takeWhile Char.isDigit
  let n := Text.ofDigits (ds.map fun d => d.toNat - 48)
  let n ← checkSize limit .value n
  return (if ds.isEmpty then none else some n, cs.drop ds.length)

/-- A size that an argument gives. -/
def givenSize (limit : Nat) (s : Supply) : Except Error (Int × Supply) := do
  let (v, s) ← s.next
  match v.index? with
  | none => throw (.fault .type)
  | some n =>
    if n < 0 then
      if n < -(limit : Int) then throw (.fault .overflow) else return (n, s)
    else return ((← checkSize limit .overflow n.toNat : Nat), s)

/-- Reads a width. -/
def readWidth (c : Conversion) (s : Supply) :
    List Char → Except Error (Conversion × Supply × List Char)
  | '*' :: rest => do
    let (n, s) ← givenSize sizeLimit s
    return ({ c with left := c.left || n < 0, width := n.natAbs }, s, rest)
  | cs => do
    let (n, rest) ← readSize sizeLimit cs
    return ({ c with width := n.getD 0 }, s, rest)

/-- Reads a precision behind its point. -/
def readPrecision (c : Conversion) (s : Supply) :
    List Char → Except Error (Conversion × Supply × List Char)
  | '.' :: '*' :: rest => do
    let (n, s) ← givenSize precisionLimit s
    return ({ c with precision := some n.toNat }, s, rest)
  | '.' :: rest => do
    let (n, rest) ← readSize precisionLimit rest
    return ({ c with precision := some (n.getD 0) }, s, rest)
  | cs => return (c, s, cs)

/-- The characters of a key up to its closing bracket, brackets inside of it being paired; `depth`
of them are open. -/
def readKey (depth : Nat) : List Char → Option (List Char × List Char)
  | [] => none
  | c :: rest =>
    if c = ')' ∧ depth = 0 then some ([], rest)
    else
      let depth := if c = '(' then depth + 1 else if c = ')' then depth - 1 else depth
      (readKey depth rest).map fun (key, more) => (c :: key, more)

/-- Characters as bytes. -/
def toBytes (cs : List Char) : List UInt8 := cs.map fun c => c.toNat.toUInt8

/-- Bytes as characters. -/
def ofBytes (bs : List UInt8) : List Char := bs.map fun b => Char.ofNat b.toNat

/-- Looks up the key at the start of a conversion, if it has one. -/
def readEntry (store : Store) (medium : Medium) (s : Supply) :
    List Char → Except Error (Supply × List Char)
  | '(' :: rest =>
    match s.mapping, readKey 0 rest with
    | none, _ => .error (.fault .type)
    | some _, none => .error (.fault .value)
    | some m, some (key, more) => do
      let key := match medium with
        | .text => Value.str (String.ofList key)
        | .bytes => .bytes (toBytes key)
      return ({ s with args := [← store.item m key] }, more)
  | cs => .ok (s, cs)

/-- A letter that says how large a number is, and means nothing. -/
def skipLength : List Char → List Char
  | c :: rest => if c = 'h' ∨ c = 'l' ∨ c = 'L' then rest else c :: rest
  | [] => []

/-- A text in ASCII; other characters are written as escapes. -/
def asciiEscaped (cs : List Char) : List Char :=
  cs.flatMap fun c =>
    if c.toNat < 128 then [c]
    else if c.toNat < 0x100 then '\\' :: 'x' :: Text.hexDigits 2 c.toNat
    else if c.toNat < 0x10000 then '\\' :: 'u' :: Text.hexDigits 4 c.toNat
    else '\\' :: 'U' :: Text.hexDigits 8 c.toNat

/-- The first characters of a text, as many as the precision says. -/
def cut (c : Conversion) (cs : List Char) : List Char :=
  match c.precision with
  | some n => cs.take n
  | none => cs

/-- A text that is filled up with blanks to the width. -/
def padded (c : Conversion) (cs : List Char) : List Char :=
  let blanks := List.replicate (c.width - cs.length) ' '
  if c.left then cs ++ blanks else blanks ++ cs

/-- A number, given by its sign, a mark of its base and its digits, filled up to the width: with
zeros behind the sign and the mark, or with blanks. -/
def paddedNumber (c : Conversion) (negative : Bool) (mark digits : List Char) : List Char :=
  let sign := if negative then ['-'] else if c.plus then ['+'] else if c.blank then [' '] else []
  let body := sign ++ mark ++ digits
  if c.zero && !c.left then
    sign ++ mark ++ List.replicate (c.width - body.length) '0' ++ digits
  else padded c body

/-- The digits of a natural number to a base, in small letters. -/
def digitsTo (base n : Nat) : List Char := Nat.toDigits base n

/-- A value as a whole number, for decimal digits: a fraction loses its places. -/
def wholeOf (v : Value) : Except Error Int :=
  match v with
  | .nan _ => .error (.fault .value)
  | .float x =>
    match Number.truncate x with
    | .ok n => .ok n
    | .error _ => .error (.fault .overflow)
  | _ =>
    match v.index? with
    | some n => .ok n
    | none => .error (.fault .type)

/-- A value as a whole number, for the digits of another base. -/
def indexOf (v : Value) : Except Error Int :=
  match v.index? with
  | some n => .ok n
  | none => .error (.fault .type)

/-- A whole number in decimal digits. -/
def decimalConversion (c : Conversion) (v : Value) : Except Error (List Char) := do
  let n ← wholeOf v
  let digits ← Store.wholeShown n.natAbs
  return paddedNumber c (n < 0) [] (Number.padDigits (c.precision.getD 1) digits.toList)

/-- A whole number in the digits of another base. -/
def baseConversion (c : Conversion) (base : Nat) (mark : Char) (v : Value) :
    Except Error (List Char) := do
  let n ← indexOf v
  let digits := Number.padDigits (c.precision.getD 1) (digitsTo base n.natAbs)
  let mark := if c.alternate then ['0', mark] else []
  let upper (cs : List Char) : List Char := if c.letter = 'X' then cs.map Char.toUpper else cs
  return paddedNumber c (n < 0) (upper mark) (upper digits)

/-- A value as a fractional number; in byte strings one that is too large is of the wrong kind. -/
def fractionOf (medium : Medium) (v : Value) : Except Error Float :=
  match v.number? with
  | none => .error (.fault .type)
  | some n =>
    match n.toFloat with
    | .ok x => .ok x
    | .error _ => .error (.fault (if medium = .bytes then .type else .overflow))

/-- A fractional number. -/
def fractionConversion (c : Conversion) (medium : Medium) (v : Value) :
    Except Error (List Char) := do
  let x ← fractionOf medium v
  let upper (cs : List Char) : List Char := if c.letter.isUpper then cs.map Char.toUpper else cs
  let precision := c.precision.getD 6
  match Number.Dyadic.ofFloat? x with
  | none =>
    let name := if x.isNaN then ['n', 'a', 'n'] else ['i', 'n', 'f']
    return paddedNumber c (!x.isNaN && Number.isNegative x) [] (upper name)
  | some d =>
    let (num, den) := d.ratio
    let digits := match c.letter.toLower with
      | 'e' => Number.scientific c.alternate precision num.natAbs den
      | 'f' => Number.positional c.alternate precision num.natAbs den
      | _ => Number.general c.alternate precision num.natAbs den
    return paddedNumber c d.negative [] (upper digits)

/-- The number of code points. -/
def characterCount : Nat := 0x110000

/-- A single character, or the one that a number stands for. -/
def characterConversion (c : Conversion) (v : Value) : Except Error (List Char) :=
  match v with
  | .str t => if t.length = 1 then .ok (padded c t.toList) else .error (.fault .type)
  | _ => do
    let n ← indexOf v
    if 0 ≤ n ∧ n < characterCount then return padded c [Char.ofNat n.toNat]
    else throw (.fault .overflow)

/-- A single byte, or the one that a number stands for. -/
def byteConversion (c : Conversion) (v : Value) : Except Error (List Char) :=
  match v with
  | .bytes bs => if bs.length = 1 then .ok (padded c (ofBytes bs)) else .error (.fault .type)
  | _ => do
    let n ← indexOf v
    if 0 ≤ n ∧ n < 256 then return padded c [Char.ofNat n.toNat] else throw (.fault .overflow)

/-- Writes an argument into a text. -/
def writeText (store : Store) (c : Conversion) (v : Value) : Except Error (List Char) :=
  match c.letter with
  | 's' => do return padded c (cut c (← store.text v).toList)
  | 'r' => do return padded c (cut c (← store.shown v).toList)
  | 'a' => do return padded c (cut c (asciiEscaped (← store.shown v).toList))
  | 'c' => characterConversion c v
  | _ => .error (.fault .value)

/-- Writes an argument into a byte string. -/
def writeBytes (store : Store) (c : Conversion) (v : Value) : Except Error (List Char) :=
  match c.letter with
  | 's' | 'b' =>
    match v with
    | .bytes bs => .ok (padded c (cut c (ofBytes bs)))
    | _ => .error (.fault .type)
  | 'r' | 'a' => do return padded c (cut c (asciiEscaped (← store.shown v).toList))
  | 'c' => byteConversion c v
  | _ => .error (.fault .value)

/-- Writes an argument. -/
def write (store : Store) (medium : Medium) (c : Conversion) (v : Value) :
    Except Error (List Char) :=
  match c.letter with
  | 'd' | 'i' | 'u' => decimalConversion c v
  | 'o' => baseConversion c 8 'o' v
  | 'x' | 'X' => baseConversion c 16 'x' v
  | 'e' | 'E' | 'f' | 'F' | 'g' | 'G' => fractionConversion c medium v
  | _ =>
    match medium with
    | .text => writeText store c v
    | .bytes => writeBytes store c v

/-- Carries out the conversion at the start, behind its percent sign. -/
def convert (store : Store) (medium : Medium) (s : Supply) (cs : List Char) :
    Except Error (List Char × Supply × List Char) := do
  let (s, cs) ← readEntry store medium s cs
  let (c, cs) := readFlags {} cs
  let (c, s, cs) ← readWidth c s cs
  let (c, s, cs) ← readPrecision c s cs
  match skipLength cs with
  | [] => throw (.fault .value)
  | letter :: rest =>
    let (v, s) ← s.next
    return (← write store medium { c with letter } v, s, rest)

/-- Fills a template; `fuel` is not less than its length. -/
def fill (store : Store) (medium : Medium) :
    Nat → Supply → List Char → Except Error (List Char × Supply)
  | 0, s, _ => .ok ([], s)
  | fuel + 1, s, cs =>
    match cs with
    | [] => .ok ([], s)
    | '%' :: '%' :: rest => do
      let (out, s) ← fill store medium fuel s rest
      return ('%' :: out, s)
    | '%' :: rest => do
      let (written, s, rest) ← convert store medium s rest
      let (out, s) ← fill store medium fuel s rest
      return (written ++ out, s)
    | c :: rest => do
      let (out, s) ← fill store medium fuel s rest
      return (c :: out, s)

/-- Whether keys of a template can ask a value for its entries. -/
def isMapping (store : Store) (medium : Medium) (v : Value) : Bool :=
  match v with
  | .bytes _ => medium = .text
  | _ =>
    match store.view v with
    | some (.dict _) | some (.frozen _) | some (.list _) | some (.collection _) => true
    | _ => false

/-- The arguments that a value gives. -/
def supply (store : Store) (medium : Medium) (v : Value) : Supply :=
  match store.view v with
  | some (.tuple xs) => ⟨xs, none⟩
  | _ => ⟨[v], if isMapping store medium v then some v else none⟩

/-- A template with its conversions carried out on the arguments that a value gives. -/
def filled (store : Store) (medium : Medium) (template : List Char) (v : Value) :
    Except Error (List Char) := do
  let (out, s) ← fill store medium (template.length + 1) (supply store medium v) template
  if s.args.isEmpty || s.mapping.isSome then return out else throw (.fault .type)

end Recordset.Template
