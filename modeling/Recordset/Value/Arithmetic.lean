import Recordset.Value.Order
import Recordset.Value.Template
set_option autoImplicit false

/-!
# Operations on two values

Arithmetic on numbers, joining and repeating of texts and sequences, filling of templates,
difference of sets, and the comparisons.  Every other combination is a fault.
-/

namespace Recordset

/-- The fault of an arithmetic operation. -/
def ArithmeticFault.fault : ArithmeticFault → Fault
  | overflow => .overflow
  | zeroDivision => .zeroDivision

/-- A list repeated so many times. -/
def repeated {α : Type} (xs : List α) (count : Int) : List α :=
  (List.replicate count.toNat xs).flatten

namespace Action

/-- The result of an arithmetic operation. -/
def arithmetic (f : Number → Number → Except ArithmeticFault Number) (a b : Number) :
    Action Value :=
  match f a b with
  | .ok n => number n
  | .error e => fault e.fault

/-- Joins two texts or sequences. -/
def joined (a b : Value) : Action Value := do
  match a, b with
  | .str x, .str y => return .str (x ++ y)
  | .bytes x, .bytes y => return .bytes (x ++ y)
  | _, _ =>
    match ← view a, ← view b with
    | some (.list xs), some (.list ys) => make (.list (xs ++ ys))
    | some (.tuple xs), some (.tuple ys) => make (.tuple (xs ++ ys))
    | _, _ => fault .type

/-- The counts from this one on are beyond every index. -/
def indexLimit : Nat := 1 <<< 63

/-- The most elements that there is room for. -/
def roomLimit : Nat := 1 <<< 30

/-- Repeats a list; `beyond` is the fault of a result that no index could reach. -/
def repeats {α : Type} (beyond : Fault) (xs : List α) (count : Int) : Action (List α) := do
  if count < -(indexLimit : Int) ∨ (indexLimit : Int) ≤ count then fault .overflow
  else
    let size := xs.length * count.toNat
    if indexLimit ≤ size then fault beyond
    else if roomLimit < size then fault .memory
    else if xs.isEmpty then return []
    else return repeated xs count

/-- Repeats a text or a sequence. -/
def repetition (v : Value) (count : Int) : Action Value := do
  match v with
  | .str t => return .str (String.ofList (← repeats .overflow t.toList count))
  | .bytes bs => return .bytes (← repeats .overflow bs count)
  | _ =>
    match ← view v with
    | some (.list xs) => do make (.list (← repeats .memory xs count))
    | some (.tuple xs) => do make (.tuple (← repeats .memory xs count))
    | _ => fault .type

/-- The difference of two sets. -/
def difference (a b : Value) : Action Value := do
  let s := (← get).store
  match s.view a, s.view b with
  | some (.set xs), some (.set ys) =>
    make (.set (s.setDifference xs ys))
  | _, _ => fault .type

/-- Fills a text or a byte string that is a template. -/
def formatted (a b : Value) : Action Value := do
  let s := (← get).store
  match a with
  | .str t => do
    return .str (String.ofList (← ofExcept (Template.filled s .text t.toList b)))
  | .bytes bs => do
    let out ← ofExcept (Template.filled s .bytes (Template.ofBytes bs) b)
    return .bytes (Template.toBytes out)
  | _ => fault .type

/-- An operation on two values, other than joining collections. -/
def binary (op : BinaryOp) (a b : Value) : Action Value := do
  match op with
  | .equal => return .bool (← look (Store.equal · a b))
  | .unequal => return .bool (!(← look (Store.equal · a b)))
  | .compare c => return .bool (← look (Store.compare · c a b))
  | .member => do return .bool (← member b a)
  | .add =>
    match a.number?, b.number? with
    | some m, some n => arithmetic Number.add m n
    | _, _ => joined a b
  | .sub =>
    match a.number?, b.number? with
    | some m, some n => arithmetic Number.sub m n
    | _, _ => difference a b
  | .mul =>
    match a.number?, b.number? with
    | some m, some n => arithmetic Number.mul m n
    | _, _ =>
      match a.index?, b.index? with
      | some n, none => repetition b n
      | none, some n => repetition a n
      | _, _ => fault .type
  | .divide =>
    match a.number?, b.number? with
    | some m, some n => arithmetic Number.divide m n
    | _, _ => fault .type
  | .floorDivide =>
    match a.number?, b.number? with
    | some m, some n => arithmetic Number.floorDivide m n
    | _, _ => fault .type
  | .modulo =>
    match a.number?, b.number? with
    | some m, some n => arithmetic Number.modulo m n
    | _, _ => formatted a b

end Action

end Recordset
