import Recordset.Value.Order
import Recordset.Value.Shown
set_option autoImplicit false

/-!
# Aggregates

An aggregate takes values one after another and keeps a running result.  Sums and averages skip
what is no number, truth values and not-a-number among them; the least and the greatest value skip
what is absent, and refuse values that have no order.  A bucket is named by the text of its key.
-/

namespace Recordset.Aggregate

/-- The number that takes part in a sum. -/
def summand? (v : Value) : Option Number :=
  match v with
  | .int n => some (.int n)
  | .float x => some (.float x)
  | _ => none

/-- A running sum and the number of its summands. -/
structure Sum where
  total : Number := .int 0
  count : Nat := 0

/-- Adds a value to a running sum. -/
def Sum.add (s : Sum) (v : Value) : Except Error Sum :=
  match summand? v with
  | none => .ok s
  | some n =>
    match Number.add s.total n with
    | .ok total => .ok ⟨total, s.count + 1⟩
    | .error .overflow => .error (.fault .overflow)
    | .error .zeroDivision => .error (.fault .zeroDivision)

/-- The sum. -/
def Sum.result (s : Sum) : Action Value := Action.number s.total

/-- The average: the sum divided by the number of summands, null without any. -/
def Sum.average (s : Sum) : Action Value :=
  if s.count = 0 then pure .null
  else
    match Number.divide s.total (.int s.count) with
    | .ok n => Action.number n
    | .error .overflow => Action.fault .overflow
    | .error .zeroDivision => Action.fault .zeroDivision

/-- The better of two values: the next one replaces the current one only when it compares as
asked. -/
def better (s : Store) (c : Comparison) (current next : Value) : Except Error Value :=
  match s.compare c next current with
  | .ok b => .ok (if b then next else current)
  | .error e =>
    if e.isType then do
      .error (.refusal (.incomparable (← s.shown current) (← s.shown next)))
    else .error e

/-- Goes on with a value towards the least or the greatest one; absent values are skipped. -/
def extreme (s : Store) (c : Comparison) (current next : Value) : Except Error Value :=
  if next.isAbsent then .ok current
  else if current matches .null then .ok next
  else better s c current next

/-- The sum of a list of values. -/
def sum (vs : List Value) : Action Value := do
  (← Action.ofExcept (vs.foldlM Sum.add {})).result

/-- The average of a list of values. -/
def avg (vs : List Value) : Action Value := do
  (← Action.ofExcept (vs.foldlM Sum.add {})).average

/-- The least of a list of values, null without any. -/
def min (vs : List Value) : Action Value :=
  Action.look fun s => vs.foldlM (extreme s .less) .null

/-- The greatest of a list of values, null without any. -/
def max (vs : List Value) : Action Value :=
  Action.look fun s => vs.foldlM (extreme s .greater) .null

/-- How many values there are. -/
def count (vs : List Value) : Value := .int vs.length

/-- The name of the bucket of a key; an absent key is named like null. -/
def bucketName (s : Store) (key : Value) : Except Error String :=
  s.text (if key.isMissing then .null else key)

/-- Buckets by name, in the order in which their names came up. -/
abbrev Buckets (β : Type) := List (String × β)

/-- Changes the bucket of a name, or makes it. -/
def Buckets.change {β : Type} (name : String) (f : Option β → β) : Buckets β → Buckets β
  | [] => [(name, f none)]
  | (n, b) :: rest =>
    if n = name then (n, f (some b)) :: rest else (n, b) :: Buckets.change name f rest

/-- Puts an item into the bucket of a name. -/
def Buckets.add (name : String) (item : Value) (bs : Buckets (List Value)) :
    Buckets (List Value) :=
  bs.change name fun b => b.getD [] ++ [item]

/-- Counts an item in the bucket of a name. -/
def Buckets.count (name : String) (bs : Buckets Nat) : Buckets Nat :=
  bs.change name fun b => b.getD 0 + 1

/-- The key under which an item is filed: an absent one as null, one of a kind that can be no key
as its text. -/
def fileKey (s : Store) (key : Value) : Except Error Value :=
  let key := if key.isMissing then .null else key
  if s.isKeyKind key then .ok key else do return .str (← s.text key)

/-- Files an item under a key; a later item takes the place of an earlier one. -/
def file (s : Store) (es : Entries) (key item : Value) : Except Error Entries := do
  let key ← fileKey s key
  if s.isKey key then return Entries.insert s es key item else throw (.fault .type)

end Recordset.Aggregate
