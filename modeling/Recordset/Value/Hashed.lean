import Recordset.Value.Equal
set_option autoImplicit false

/-!
# Hashes and the order of sets

Equal values have equal hashes, numbers of different kinds among them: the hash of a number is its
exact value modulo a prime.  A set keeps its elements in a table, each at the place that its hash
asks for or at the first free one that a probe from there on finds, and is visited in the order of
the table.  Only numbers and tuples of them have hashes that a reader can foresee; a set that holds
anything else keeps its elements in the order in which they came.
-/

namespace Recordset

namespace Number

/-- The prime by which numbers are hashed. -/
def hashPrime : Nat := 1 <<< 61 - 1

/-- The hash of an infinity. -/
def infinityHash : Int := 314159

/-- A hash that is never minus one. -/
def sealHash (n : Int) : Int := if n = -1 then -2 else n

/-- The hash of an exact value, given by a signed numerator and a power of two below it. -/
def ratioHash (num : Int) (power : Nat) : Int :=
  let inverse := 1 <<< ((61 - power % 61) % 61)
  let n : Int := (num.natAbs * inverse % hashPrime : Nat)
  sealHash (if num < 0 then -n else n)

/-- The hash of a number; not-a-number has none. -/
def hash? : Number → Option Int
  | .int n => some (ratioHash n 0)
  | .float x =>
    match Dyadic.ofFloat? x with
    | some d => some (ratioHash d.ratio.1 (Nat.log2 d.ratio.2))
    | none =>
      if x.isNaN then none else some (if isNegative x then -infinityHash else infinityHash)

end Number

/-- The two's complement of a hash in 64 bits. -/
def hashWord (n : Int) : UInt64 := UInt64.ofNat (n.emod (1 <<< 64)).toNat

namespace Store

/-- The hash of a tuple of elements with known hashes: each is mixed in by a multiplication, a
rotation and another multiplication, and the count comes last. -/
def mixHashes (hashes : List Int) : Int :=
  let first : UInt64 := 11400714785074694791
  let second : UInt64 := 14029467366897019727
  let fifth : UInt64 := 2870177450012600261
  let step (acc : UInt64) (h : Int) : UInt64 :=
    let mixed := acc + hashWord h * second
    ((mixed <<< 31) ||| (mixed >>> 33)) * first
  let mixed := hashes.foldl step fifth + (UInt64.ofNat hashes.length ^^^ (fifth ^^^ 3527539))
  if mixed + 1 = 0 then 1546275796
  else if mixed.toNat < 1 <<< 63 then mixed.toNat
  else (mixed.toNat : Int) - (1 <<< 64 : Nat)

/-- The hash of a number, or of a tuple of values with hashes, within a bound on the nesting. -/
def hashAt (s : Store) : Nat → Value → Option Int
  | 0, _ => none
  | fuel + 1, v =>
    match v, v.number? with
    | .nan _, _ => none
    | _, some n => n.hash?
    | _, none =>
      match s.view v with
      | some (.tuple xs) => (xs.mapM (s.hashAt fuel)).map mixHashes
      | _ => none

/-- The hash of a value, where it can be foreseen. -/
def hash? (s : Store) (v : Value) : Option Int := s.hashAt s.depth v

end Store

/-- The table of a set: the elements at their places, with their hashes. -/
structure SetTable where
  slots : Array (Option (UInt64 × Value))
  used : Nat := 0

namespace SetTable

/-- The size of the smallest table. -/
def least : Nat := 8

/-- An empty table of a size. -/
def empty (size : Nat) : SetTable := { slots := Array.replicate size none }

/-- How many neighbours a probe looks at. -/
def neighbours : Nat := 9

/-- The first free place among some neighbours. -/
def freeAmong (t : SetTable) : Nat → Nat → Option Nat
  | 0, _ => none
  | count + 1, place =>
    match t.slots[place]? with
    | some none => some place
    | _ => freeAmong t count (place + 1)

/-- The first free place that a probe finds. -/
def probe (t : SetTable) : Nat → UInt64 → UInt64 → Nat
  | 0, place, _ => place.toNat
  | fuel + 1, place, perturbation =>
    let last := t.slots.size - 1
    let count := if place.toNat + neighbours ≤ last then neighbours + 1 else 1
    match t.freeAmong count place.toNat with
    | some free => free
    | none =>
      let perturbation := perturbation >>> 5
      probe t fuel ((place * 5 + 1 + perturbation) &&& UInt64.ofNat last) perturbation

/-- Puts an element at its place. -/
def put (t : SetTable) (hash : UInt64) (v : Value) : SetTable :=
  let start := hash &&& UInt64.ofNat (t.slots.size - 1)
  let place := t.probe (t.slots.size + 64) start hash
  { slots := t.slots.setIfInBounds place (some (hash, v)), used := t.used + 1 }

/-- The elements in the order of the table, with their hashes. -/
def entries (t : SetTable) : List (UInt64 × Value) := t.slots.toList.filterMap id

/-- The smallest size above a number. -/
def sizeAbove (n : Nat) : Nat → Nat → Nat
  | 0, size => size
  | fuel + 1, size => if size ≤ n then sizeAbove n fuel (2 * size) else size

/-- The elements of a table put into one that is larger than a number. -/
def grow (t : SetTable) (n : Nat) : SetTable :=
  t.entries.foldl (fun new (h, v) => new.put h v) (empty (sizeAbove n n least))

/-- Puts an element in, and makes the table larger when three of five places are taken. -/
def add (t : SetTable) (hash : UInt64) (v : Value) : SetTable :=
  let t := t.put hash v
  if t.used * 5 < (t.slots.size - 1) * 3 then t
  else t.grow (if 50000 < t.used then t.used * 2 else t.used * 4)

/-- The order in which the elements of a set are visited when they have been put in one after
another. -/
def order (s : Store) (items : List Value) : List Value :=
  match items.mapM fun v => (s.hash? v).map fun h => (hashWord h, v) with
  | none => items
  | some hashed => (hashed.foldl (fun t (h, v) => t.add h v) (empty least)).entries.map (·.2)

/-- The order in which a copy of a set is visited: a large one is copied into a table with room for
twice as many elements. -/
def copyOrder (s : Store) (items : List Value) : List Value :=
  match items.mapM fun v => (s.hash? v).map fun h => (hashWord h, v) with
  | none => items
  | some hashed =>
    let n := items.length
    if n * 5 < (least - 1) * 3 then items
    else
      (hashed.foldl (fun t (h, v) => t.put h v) (empty (sizeAbove (2 * n) n least))).entries.map
        (·.2)

end SetTable

namespace Store

/-- Each of some values once, equal ones where the first of them stands. -/
def distinctKeys (s : Store) (vs : List Value) : List Value :=
  vs.foldl (fun xs v => if xs.any (s.sameKey v) then xs else xs ++ [v]) []

/-- The elements of the set of some values, in the order in which the set is visited. -/
def setOf (s : Store) (vs : List Value) : List Value := SetTable.order s (s.distinctKeys vs)

/-- The elements of the difference of two sets, in the order in which the difference is visited.
From a set much larger than the other the elements of the other are dropped from a copy; otherwise
those that are not in the other are put into a new one. -/
def setDifference (s : Store) (xs ys : List Value) : List Value :=
  let rest (zs : List Value) : List Value := zs.filter fun z => !ys.any fun y => s.sameKey z y
  if ys.length < xs.length / 4 then rest (SetTable.copyOrder s xs)
  else SetTable.order s (rest xs)

end Store

end Recordset
