import Recordset.Text.Blank
import Recordset.Value.Order
import Recordset.Value.Shown
import Recordset.Sorting.Basic
set_option autoImplicit false

/-!
# Values laid out in lines

A value is printed on one line when it fits into the width.  Otherwise a list, a tuple, a set or a
mapping is printed with each element on a line of its own, one column further in, and a long text
or byte string is broken into several literals, in parentheses when it is all that is printed.  The
entries of a mapping come in the order of their keys, and so do the elements of a set that is broken
into lines.  What shows another value is printed around it, and a policy with a line for each part.
-/

namespace Recordset

/-- A value as it is to be printed, with its form on one line. -/
inductive Layout where
  | atom (line : String)
  | text (s : String)
  | bytes (bs : List UInt8)
  | group (line opening closing : String) (parts : List Layout)
  /-- entries, their keys written already -/
  | entries (parts : List (String × Layout))
  /-- a value that shows another one -/
  | around (line opening closing : String) (inner : Layout)
  /-- a value with named parts -/
  | fields (line opening : String) (parts : List (String × Layout))
  deriving Inhabited

namespace Layout

/-- The number of columns. -/
def width : Int := 80

mutual
/-- The form on one line. -/
def line : Layout → String
  | atom l => l
  | text s => Text.quoted s
  | bytes bs => Text.quotedBytes bs
  | group l _ _ _ => l
  | around l _ _ _ => l
  | fields l _ _ => l
  | entries parts => "\x7b" ++ Store.commaSeparated (entryLines parts) ++ "\x7d"

/-- The entries of a mapping on one line. -/
def entryLines : List (String × Layout) → List String
  | [] => []
  | (key, l) :: rest => (key ++ ": " ++ line l) :: entryLines rest
end

/-- A line of a text with the break at its end, and the rest. -/
def spanLine : List Char → List Char × List Char
  | [] => ([], [])
  | '\r' :: '\n' :: rest => (['\r', '\n'], rest)
  | c :: rest =>
    if isBreak c then ([c], rest)
    else
      let (l, more) := spanLine rest
      (c :: l, more)
where
  /-- A character that ends a line. -/
  isBreak (c : Char) : Bool :=
    let n := c.toNat
    (10 ≤ n && n ≤ 13) || (28 ≤ n && n ≤ 30) || n == 133 || n == 8232 || n == 8233

/-- The lines of a text, each with the break at its end. -/
def lines : Nat → List Char → List (List Char)
  | 0, _ => []
  | fuel + 1, cs =>
    if cs.isEmpty then []
    else
      let (l, rest) := spanLine cs
      l :: lines fuel rest

/-- A text cut after each run of blanks. -/
def words : Nat → List Char → List (List Char)
  | 0, _ => []
  | fuel + 1, cs =>
    if cs.isEmpty then []
    else
      let word := cs.takeWhile fun c => !Text.isBlank c
      let rest := cs.dropWhile fun c => !Text.isBlank c
      (word ++ rest.takeWhile Text.isBlank) :: words fuel (rest.dropWhile Text.isBlank)

/-- Packs pieces into literals that are not longer than `room`, the last one than `lastRoom`; a
piece that is too long by itself has a literal of its own. -/
def pack {α : Type} (shown : List α → String) (room lastRoom : Int) (current : List α) :
    List (List α) → List String
  | [] => if current.isEmpty then [] else [shown current]
  | piece :: rest =>
    let candidate := current ++ piece
    let limit := if rest.isEmpty then lastRoom else room
    if limit < (shown candidate).length then
      (if current.isEmpty then [] else [shown current]) ++ pack shown room lastRoom piece rest
    else pack shown room lastRoom candidate rest

/-- The literals of a text that is broken up: first by lines, then between words.  The empty text
has one. -/
def textChunks (indent allowance : Int) (s : String) : List String :=
  if s.isEmpty then [Text.quoted s] else chunks (lines s.length s.toList)
where
  /-- The literals of the lines of a text. -/
  chunks : List (List Char) → List String
    | [] => []
    | l :: rest =>
      let shown (cs : List Char) : String := Text.quoted (String.ofList cs)
      let room := width - indent
      let lastRoom := if rest.isEmpty then room - allowance else room
      if (shown l).length ≤ lastRoom then shown l :: chunks rest
      else pack shown room lastRoom [] (words l.length l) ++ chunks rest

/-- Bytes in fours. -/
def fours : Nat → List UInt8 → List (List UInt8)
  | 0, _ => []
  | fuel + 1, bs => if bs.isEmpty then [] else bs.take 4 :: fours fuel (bs.drop 4)

/-- The literals of a byte string that is broken up.  Only a group of fewer than four bytes at the
end keeps the allowance free. -/
def bytesChunks (indent allowance : Int) (bs : List UInt8) : List String :=
  let room := width - indent
  let lastRoom := if bs.length % 4 = 0 then room else room - allowance
  pack Text.quotedBytes room lastRoom [] (fours bs.length bs)

/-- The break between two elements. -/
def lineBreak (indent : Int) : String := "\n" ++ String.ofList (List.replicate indent.toNat ' ')

/-- Whether a line fits that starts in column `indent` and has to leave `allowance` columns free. -/
def fits (indent allowance : Int) (l : String) : Bool :=
  decide (l.length ≤ width - indent - allowance)

/-- Literals one below the other; when they are all that is printed, several of them stand in
parentheses. -/
def literals (whole : Bool) (indent : Int) (parts : List String) : String :=
  let text := (lineBreak indent).intercalate parts
  if whole ∧ 1 < parts.length then "(" ++ text ++ ")" else text

mutual
/-- Prints a value that starts in column `indent` and has to leave `allowance` columns free after
its last line; `whole` tells that it is all that is printed. -/
def render (whole : Bool) (indent allowance : Int) : Layout → String
  | atom l => l
  | text s =>
    if fits indent allowance (Text.quoted s) then Text.quoted s
    else
      let inset : Int := if whole then 1 else 0
      literals whole (indent + inset) (textChunks (indent + inset) (allowance + inset) s)
  | bytes bs =>
    if fits indent allowance (Text.quotedBytes bs) ∨ bs.length ≤ 4 then Text.quotedBytes bs
    else if whole then
      "(" ++ (lineBreak (indent + 1)).intercalate (bytesChunks (indent + 1) (allowance + 1) bs) ++
        ")"
    else (lineBreak indent).intercalate (bytesChunks indent allowance bs)
  | group l opening closing parts =>
    if fits indent allowance l then l
    else opening ++ renderAll (indent + 1) (allowance + closing.length) parts ++ closing
  | entries parts =>
    if fits indent allowance (line (entries parts)) then line (entries parts)
    else "\x7b" ++ renderEntries ": " (indent + 1) (allowance + 1) parts ++ "\x7d"
  | around l opening closing inner =>
    if fits indent allowance l then l
    else
      opening ++ render false (indent + opening.length) (allowance + closing.length) inner ++
        closing
  | fields l opening parts =>
    if fits indent allowance l then l
    else opening ++ renderEntries "=" (indent + opening.length) allowance parts ++ ")"

/-- Prints elements on lines of their own. -/
def renderAll (indent allowance : Int) : List Layout → String
  | [] => ""
  | l :: rest =>
    if rest.isEmpty then render false indent allowance l
    else render false indent 1 l ++ "," ++ lineBreak indent ++ renderAll indent allowance rest

/-- Prints entries on lines of their own, with a sign between a key and its value. -/
def renderEntries (sign : String) (indent allowance : Int) : List (String × Layout) → String
  | [] => ""
  | (key, l) :: rest =>
    let start := indent + key.length + sign.length
    if rest.isEmpty then key ++ sign ++ render false start allowance l
    else
      key ++ sign ++ render false start 1 l ++ "," ++ lineBreak indent ++
        renderEntries sign indent allowance rest
end

/-- The name of the kind of a value as keys without an order are ordered by it: the kinds of a
session come before those of this library, and both before most others. -/
def kindName (s : Store) (v : Value) : String :=
  let kind := s.comparedKind v
  match v, s.view v with
  | .missing, _ => "e." ++ kind
  | _, some (.object _) | _, some (.function _) | _, some (.custom _ _)
  | _, some (.executor (.recorder _ _ _)) => "_." ++ kind
  | _, some (.tuple _) | _, some (.iterator _) | _, some (.work _) | _, none => kind
  | _, some _ => "e." ++ kind

/-- The order of two keys that have none of their own: by kind, and then by which was made first. -/
def kindBefore (s : Store) (a b : Value) : Bool :=
  let m := kindName s a
  let n := kindName s b
  if m = n then
    match a.address?, b.address? with
    | some i, some j => i.index < j.index
    | _, _ => false
  else m < n

/-- The order of keys: their own, or that of their kinds when they have none. -/
def keyBefore (s : Store) (a b : Value) : Except Error Bool :=
  match s.less a b with
  | .error e => if e.isType then .ok (kindBefore s a b) else .error e
  | r => r

/-- Sorts by keys. -/
def sortByKeys {α : Type} (s : Store) (key : α → Value) (xs : List α) : Except Error (List α) :=
  let less : Sorting.Less α Error Id := fun x y => ExceptT.mk (pure (keyBefore s (key x) (key y)))
  match (Sorting.sort less xs).run with
  | (sorted, none) => .ok sorted
  | (_, some e) => .error e

/-- Lays a value out, within a bound on its nesting. -/
def ofValueAt (s : Store) : Nat → Value → Except Error Layout
  | 0, _ => .error (.fault .recursion)
  | fuel + 1, v =>
    let all (xs : List Value) : Except Error (List Layout) := xs.mapM (ofValueAt s fuel)
    let mapping (es : Entries) : Except Error (List (String × Layout)) := do
      (← sortByKeys s (·.1) es).mapM fun (k, w) => do
        return ((← ofValueAt s fuel k).line, ← ofValueAt s fuel w)
    match v with
    | .str t => return .text t
    | .bytes bs => return .bytes bs
    | _ =>
      match s.view v with
      | some (.list xs) => do
        let parts ← all xs
        return .group ("[" ++ Store.commaSeparated (parts.map line) ++ "]") "[" "]" parts
      | some (.tuple xs) => do
        let parts ← all xs
        let closing := if parts.length = 1 then ",)" else ")"
        return .group ("(" ++ Store.commaSeparated (parts.map line) ++ closing) "(" closing parts
      | some (.dict es) => return .entries (← mapping es)
      | some (.frozen es) => do
        return .around (← s.shown v) "mappingproxy(" ")" (.entries (← mapping es))
      | some (.policy p) => do
        let parts ← all [p.perPage, p.separator, .str p.direction.text, p.seed]
        return .fields (← s.shown v) "Policy("
          (["per_page", "separator", "sort_direction", "random_seed"].zip parts)
      | some (.set []) => return .atom "set()"
      | some (.set xs) => do
        let parts ← all (← sortByKeys s id xs)
        return .group (← s.shown v) "\x7b" "\x7d" parts
      | _ => return .atom (← s.shown v)

/-- A value in lines. -/
def printed (s : Store) (v : Value) : Except Error String := do
  return (← ofValueAt s s.depth v).render true 0 0 ++ "\n"

end Layout

end Recordset
