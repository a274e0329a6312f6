import Recordset.Slice
import Recordset.Value.Hashed
import Recordset.Value.Shown
set_option autoImplicit false

/-!
# Elements and entries

Reading and changing what a container holds: lists and tuples by position, mappings by key, texts
and byte strings by position, collections as the lists of their items.
-/

namespace Recordset

/-- The value at a position. -/
def itemAt (xs : List Value) (key : Value) : Except Error Value :=
  match key.index? with
  | none => .error (.fault .type)
  | some i =>
    match (Slice.place? xs.length i).bind (xs[·]?) with
    | some v => .ok v
    | none => .error (.fault .index)

/-- The list with the value at a position replaced. -/
def replaceAt (xs : List Value) (key v : Value) : Except Error (List Value) :=
  match key.index? with
  | none => .error (.fault .type)
  | some i =>
    match Slice.place? xs.length i with
    | some n => .ok (xs.set n v)
    | none => .error (.fault .index)

/-- The list without the value at a position. -/
def removeAt (xs : List Value) (key : Value) : Except Error (List Value) :=
  match key.index? with
  | none => .error (.fault .type)
  | some i =>
    match Slice.place? xs.length i with
    | some n => .ok (xs.eraseIdx n)
    | none => .error (.fault .index)

/-- The characters of a text, each as a text. -/
def characters (t : String) : List Value := t.toList.map fun c => .str (String.singleton c)

/-- The bytes of a byte string, as numbers. -/
def byteValues (bs : List UInt8) : List Value := bs.map fun b => .int b.toNat

/-- A bound of a slice: a whole number, or null for none. -/
def sliceBound : Value → Except Error (Option Int)
  | .null => .ok none
  | v =>
    match v.index? with
    | some i => .ok (some i)
    | none => .error (.fault .type)

namespace Store

/-- How many elements a container has. -/
def length (s : Store) (v : Value) : Except Error Nat :=
  match v with
  | .str t => .ok t.length
  | .bytes bs => .ok bs.length
  | _ =>
    match s.view v with
    | some (.list xs) | some (.tuple xs) | some (.set xs) => .ok xs.length
    | some (.dict es) | some (.frozen es) => .ok es.length
    | some (.collection c) => .ok (s.items c).length
    | some (.custom kind _) => if kind.isContainer then .ok 1 else .error (.fault .type)
    | _ => .error (.fault .type)

/-- The fault of a key that is not there. -/
def absentKey (s : Store) (key : Value) : Fault :=
  match s.shown key with
  | .ok _ => @Fault.key none
  | .error e => @Fault.key (some (unwrittenOf e))

/-- The value under a key of a mapping. -/
def entry (s : Store) (es : Entries) (key : Value) : Except Error Value :=
  if s.isKey key then
    match Entries.find? s es key with
    | some v => .ok v
    | none => .error (.fault (s.absentKey key))
  else .error (.fault .type)

/-- The value at a position or under a key. -/
def item (s : Store) (v key : Value) : Except Error Value :=
  match v with
  | .str t => itemAt (characters t) key
  | .bytes bs => itemAt (byteValues bs) key
  | _ =>
    match s.view v with
    | some (.list xs) | some (.tuple xs) => itemAt xs key
    | some (.collection c) => itemAt (s.items c) key
    | some (.dict es) | some (.frozen es) => s.entry es key
    | some (.custom kind _) =>
      .error (if kind.role = .sequence then kind.failure else .fault .type)
    | _ => .error (.fault .type)

/-- Whether a text is part of another one. -/
def isPart (part whole : String) : Bool :=
  let p := part.toList
  let rec go : List Char → Bool
    | [] => p.isEmpty
    | cs@(_ :: rest) => p.isPrefixOf cs || go rest
  go whole.toList

/-- Whether bytes are part of others. -/
def isBytesPart (part : List UInt8) : List UInt8 → Bool
  | [] => part.isEmpty
  | whole@(_ :: rest) => part.isPrefixOf whole || isBytesPart part rest

/-- The elements that a container gives when it is iterated; an iterator gives what is left. -/
def elements (s : Store) (v : Value) : Except Error (List Value) :=
  match v with
  | .str t => .ok (characters t)
  | .bytes bs => .ok (byteValues bs)
  | _ =>
    match s.view v with
    | some (.list xs) | some (.tuple xs) | some (.set xs) | some (.iterator xs) => .ok xs
    | some (.dict es) | some (.frozen es) => .ok (es.map (·.1))
    | some (.collection c) => .ok (s.items c)
    | some (.custom kind _) =>
      .error (if kind.isContainer then kind.failure else .fault .type)
    | _ => .error (.fault .type)

/-- Whether a container holds a value: a text its parts, a mapping its keys, anything else its
elements.  No set is an element of a set. -/
def holds (s : Store) (container v : Value) : Except Error Bool :=
  match container with
  | .str whole =>
    match v with
    | .str part => .ok (isPart part whole)
    | _ => .error (.fault .type)
  | .bytes whole =>
    match v with
    | .bytes part => .ok (isBytesPart part whole)
    | _ =>
      match v.index? with
      | some i =>
        if 0 ≤ i ∧ i < 256 then .ok (whole.any fun b => (b.toNat : Int) == i)
        else .error (.fault .value)
      | none => .error (.fault .type)
  | _ =>
    match s.view container with
    | some (.dict es) | some (.frozen es) =>
      if s.isKey v then .ok (Entries.contains s es v) else .error (.fault .type)
    | some (.set xs) =>
      if s.isKey v then .ok (xs.any fun x => s.sameKey x v)
      else
        match s.view v with
        | some (.set _) => .ok false
        | _ => .error (.fault .type)
    | some (.custom kind _) => if kind.isContainer then .ok false else .error (.fault .type)
    | _ => do s.anyEqual v (← s.elements container)

end Store

namespace Action

/-- The elements of a container, in the order in which it is visited.  An iterator has none left
afterwards. -/
def iterate (v : Value) : Action (List Value) := do
  let xs ← look (Store.elements · v)
  match v with
  | .ref a =>
    match ← cell a with
    | .iterator _ => do
      write a (.iterator [])
      return xs
    | _ => return xs
  | _ => return xs

/-- The elements behind the first one that is a given value or equal to it. -/
def afterFound (v : Value) : List Value → Action (Option (List Value))
  | [] => return none
  | x :: rest => do
    if ← look fun s => s.matchesElement x v then return some rest else afterFound v rest

/-- Whether a container holds a value.  An iterator is asked for its elements until it has given
one that is the value or equal to it. -/
def member (container v : Value) : Action Bool := do
  match container, (← get).store.view container with
  | .ref a, some (.iterator xs) => do
    let rest ← afterFound v xs
    write a (.iterator (rest.getD []))
    return rest.isSome
  | _, _ => look (Store.holds · container v)

/-- Changes what the list in a cell holds. -/
def fillList (list : Address) (xs : List Value) : Action Unit := do
  match ← cell list with
  | .list _ => write list (.list xs)
  | _ => fault .attribute

/-- Puts a value at a position or under a key. -/
def assign (target key v : Value) : Action Unit := do
  match target with
  | .ref a =>
    match ← cell a with
    | .list xs => do write a (.list (← ofExcept (replaceAt xs key v)))
    | .collection c => do fillList c.list (← ofExcept (replaceAt ((← get).store.items c) key v))
    | .dict es => do
      let s := (← get).store
      if s.isKey key then write a (.dict (Entries.insert s es key v)) else fault .type
    | _ => fault .type
  | _ => fault .type

/-- Drops what is at a position or under a key. -/
def remove (target key : Value) : Action Unit := do
  match target with
  | .ref a =>
    match ← cell a with
    | .list xs => do write a (.list (← ofExcept (removeAt xs key)))
    | .collection c => do fillList c.list (← ofExcept (removeAt ((← get).store.items c) key))
    | .dict es => do
      let s := (← get).store
      if s.isKey key then
        if Entries.contains s es key then write a (.dict (Entries.erase s es key))
        else fault (s.absentKey key)
      else fault .type
    | _ => fault .type
  | _ => fault .type

end Action

end Recordset
