import Recordset.Value.Equal
set_option autoImplicit false

/-!
# Order

Numbers are ordered by value, texts by code points, byte strings by bytes, and lists and tuples by
their first elements that differ.  Sets are ordered by inclusion.  Nothing else has an order, and a
comparison with a hostile value fails.
-/

namespace Recordset.Store

/-- The order of two lists of numbers, by the first ones that differ. -/
def compareBytes : List UInt8 → List UInt8 → Ordering
  | [], [] => .eq
  | [], _ :: _ => .lt
  | _ :: _, [] => .gt
  | a :: as, b :: bs => if a < b then .lt else if b < a then .gt else compareBytes as bs

/-- The order of two texts, by code points. -/
def compareText (a b : String) : Ordering := if a < b then .lt else if a = b then .eq else .gt

/-- Compares two lists by their first elements that differ, and by length where none do. -/
def compareLists (eq : Value → Value → Except Error Bool)
    (order : Value → Value → Except Error Bool) (op : Comparison) :
    List Value → List Value → Except Error Bool
  | x :: xs, y :: ys => do
    if ← sameOr eq x y then compareLists eq order op xs ys else order x y
  | xs, ys => return op.holds (compare xs.length ys.length)

/-- Whether every element of one set is in the other. -/
def within (s : Store) (xs ys : List Value) : Bool := xs.all fun x => ys.any fun y => s.sameKey x y

/-- Inclusion of two sets. -/
def compareSets (s : Store) (op : Comparison) (xs ys : List Value) : Bool :=
  match op with
  | .lessEqual => s.within xs ys
  | .greaterEqual => s.within ys xs
  | .less => s.within xs ys && xs.length != ys.length
  | .greater => s.within ys xs && xs.length != ys.length

/-- The failure of a comparison of two values that have no order. -/
def unordered (op : Comparison) (left right : String) : Except Error Bool :=
  .error (.fault (.unordered op.symbol left right))

/-- Order of two values, within a bound on their nesting.  A mapping that nobody can change stands
for the mapping it shows, also in the wording of a failure. -/
def compareAt (s : Store) : Nat → Comparison → Value → Value → Except Error Bool
  | 0, _, _, _ => .error (.fault .recursion)
  | fuel + 1, op, a, b =>
    match a.number?, b.number? with
    | some m, some n => return (Number.compare? m n).any op.holds
    | _, _ =>
      match a, b with
      | .str x, .str y => return op.holds (compareText x y)
      | .bytes x, .bytes y => return op.holds (compareBytes x y)
      | _, _ =>
        match s.view a, s.view b with
        | some .hostile, _ => .error (.fault .value)
        | _, some .hostile => .error (.fault .value)
        | some (.list xs), some (.list ys) =>
          compareLists (s.equalAt fuel) (s.compareAt fuel op) op xs ys
        | some (.tuple xs), some (.tuple ys) =>
          compareLists (s.equalAt fuel) (s.compareAt fuel op) op xs ys
        | some (.set xs), some (.set ys) => return s.compareSets op xs ys
        | some (.frozen _), some (.frozen _) => unordered op.swap "dict" "dict"
        | some (.frozen _), _ => unordered op "dict" (s.comparedKind b)
        | _, some (.frozen _) => unordered op.swap "dict" (s.comparedKind a)
        | _, _ => unordered op (s.comparedKind a) (s.comparedKind b)

/-- Order of two values. -/
def compare (s : Store) (op : Comparison) (a b : Value) : Except Error Bool :=
  s.compareAt s.depth op a b

/-- Whether one value is less than another. -/
def less (s : Store) (a b : Value) : Except Error Bool := s.compare .less a b

end Recordset.Store
