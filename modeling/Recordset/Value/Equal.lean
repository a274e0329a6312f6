import Recordset.Value.Kind
set_option autoImplicit false

/-!
# Equality

Values are equal by content: numbers by their value, whatever their kind; texts, sequences,
mappings and sets by what they hold; a collection equals every collection, list or tuple with equal
items; a method equals the same method of the same value.  All other shared values are equal only to
themselves.  Inside a container an element also
counts as equal when it is the very same value, which matters for not-a-number.  A comparison with
a hostile value fails.

`fuel` bounds the nesting; a value without cycles never exhausts `Store.depth`.
-/

namespace Recordset.Store

/-- Compares two lists pairwise; stops at the first pair that differs. -/
def allEqual (eq : Value → Value → Except Error Bool) : List Value → List Value → Except Error Bool
  | x :: xs, y :: ys => do
    if ← eq x y then allEqual eq xs ys else return false
  | _, _ => return true

/-- The same value or an equal one. -/
def sameOr (eq : Value → Value → Except Error Bool) (a b : Value) : Except Error Bool :=
  if a.same b then return true else eq a b

/-- Whether a comparison of keys comes out as equal.  Keys never fail to compare. -/
def succeeds (r : Except Error Bool) : Bool :=
  match r with
  | .ok b => b
  | .error _ => false

/-- The value under a key. -/
def findBy (eq : Value → Value → Except Error Bool) (es : Entries) (key : Value) : Option Value :=
  (es.find? fun e => succeeds (sameOr eq e.1 key)).map (·.2)

/-- Whether the entries of one mapping are all in the other. -/
def entriesWithin (eq : Value → Value → Except Error Bool) (other : Entries) :
    Entries → Except Error Bool
  | [] => return true
  | (k, v) :: rest =>
    match findBy eq other k with
    | none => return false
    | some w => do
      if ← sameOr eq w v then entriesWithin eq other rest else return false

/-- Equality of two mappings. -/
def entriesEqual (eq : Value → Value → Except Error Bool) (a b : Entries) : Except Error Bool :=
  if a.length = b.length then entriesWithin eq b a else return false

/-- Equality of two lists of items, decided by their lengths where those differ. -/
def itemsEqual (eq : Value → Value → Except Error Bool) (a b : List Value) : Except Error Bool :=
  if a.length = b.length then allEqual (sameOr eq) a b else return false

/-- Equality of two values in the store; `items` gives the items of a collection. -/
def cellsEqual (items : Collection → List Value) (eq : Value → Value → Except Error Bool)
    (same : Bool) : Cell → Cell → Except Error Bool
  | .hostile, _ => .error (.fault .value)
  | _, .hostile => .error (.fault .value)
  | .list xs, .list ys => itemsEqual eq xs ys
  | .tuple xs, .tuple ys => do
    return (← allEqual (sameOr eq) xs ys) && xs.length == ys.length
  | .set xs, .set ys =>
    return xs.length == ys.length && xs.all fun x => ys.any fun y => succeeds (sameOr eq x y)
  | .dict a, .dict b => entriesEqual eq a b
  | .frozen a, .frozen b => entriesEqual eq a b
  | .frozen a, .dict b => entriesEqual eq a b
  | .dict a, .frozen b => entriesEqual eq a b
  | .collection c, .collection d => itemsEqual eq (items c) (items d)
  | .collection c, .list ys => itemsEqual eq (items c) ys
  | .collection c, .tuple ys => itemsEqual eq (items c) ys
  | .list xs, .collection d => itemsEqual eq (items d) xs
  | .tuple xs, .collection d => itemsEqual eq (items d) xs
  | .policy p, .policy q =>
    allEqual (sameOr eq) [p.perPage, p.separator, .str p.direction.text, p.seed]
      [q.perPage, q.separator, .str q.direction.text, q.seed]
  | _, _ => return same

/-- Equality of two values without parts, or of a value without parts and another one. -/
def simpleEqual : Value → Value → Bool
  | .method a r name, .method b q other =>
    a == b || (r == q && name == other && name != Method.extend.name)
  | a, b => a.same b

/-- Equality of two values, within a bound on their nesting. -/
def equalAt (s : Store) : Nat → Value → Value → Except Error Bool
  | 0, _, _ => .error (.fault .recursion)
  | fuel + 1, a, b =>
    match a.number?, b.number? with
    | some m, some n => return Number.equal m n
    | _, _ =>
      match s.view a, s.view b with
      | some .hostile, _ => .error (.fault .value)
      | _, some .hostile => .error (.fault .value)
      | some c, some d => cellsEqual s.items (s.equalAt fuel) (a.same b) c d
      | _, _ => return simpleEqual a b

/-- Equality of two values. -/
def equal (s : Store) (a b : Value) : Except Error Bool := s.equalAt s.depth a b

/-- Whether two values are the same or equal, as elements of a container are compared. -/
def matchesElement (s : Store) (a b : Value) : Except Error Bool := sameOr s.equal a b

/-- Whether two values are equal as keys. -/
def sameKey (s : Store) (a b : Value) : Bool := succeeds (s.matchesElement a b)

/-- Whether a list holds an element that is the given value or equal to it. -/
def anyEqual (s : Store) (v : Value) : List Value → Except Error Bool
  | [] => return false
  | x :: xs => do
    if ← s.matchesElement x v then return true else s.anyEqual v xs

end Recordset.Store

namespace Recordset.Entries

/-- The value under a key. -/
def find? (s : Store) (es : Entries) (key : Value) : Option Value := Store.findBy s.equal es key

/-- Whether a key is there. -/
def contains (s : Store) (es : Entries) (key : Value) : Bool := es.any fun e => s.sameKey e.1 key

/-- Puts a value under a key.  A key that is there keeps its place and its spelling. -/
def insert (s : Store) (es : Entries) (key value : Value) : Entries :=
  if contains s es key then
    es.map fun e => if s.sameKey e.1 key then (e.1, value) else e
  else es ++ [(key, value)]

/-- Drops a key. -/
def erase (s : Store) (es : Entries) (key : Value) : Entries :=
  es.filter fun e => !s.sameKey e.1 key

/-- Puts all entries of one mapping into another. -/
def insertAll (s : Store) (es more : Entries) : Entries :=
  more.foldl (fun acc e => insert s acc e.1 e.2) es

/-- The mapping that a list of entries describes. -/
def ofList (s : Store) (es : Entries) : Entries := insertAll s [] es

end Recordset.Entries
