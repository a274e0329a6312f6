import Recordset.Value.Access
set_option autoImplicit false

/-!
# Attributes

What a value shows of itself by name.  A value that has no fields of its own can still have
attributes set on it.  On a collection, an attribute that has been set comes before a method of the
same name, and a method before an extension.  Methods and extensions are made anew each time they
are asked for, with a serial number of their own.  What the language gives to every value of one of
its kinds, such as the methods of texts, is left out.
-/

namespace Recordset

namespace Pattern

/-- The number that stands for the switches of a pattern. -/
def switchNumber (s : Switches) : Nat :=
  (if s.ignoreCase then 2 else 0) + (if s.multiline then 8 else 0) + (if s.dotAll then 16 else 0) +
    (if s.verbose then 64 else 0) + (if s.ascii then 256 else 32)

end Pattern

namespace Action

/-- The parts of a number that are its attributes. -/
def numberAttribute (n : Number) (v : Value) (name : String) : Option Value :=
  match n with
  | .int i =>
    if name = "real" ∨ name = "numerator" then some (.int i)
    else if name = "imag" then some (.int 0)
    else if name = "denominator" then some (.int 1)
    else none
  | .float _ =>
    if name = "real" then some v else if name = "imag" then some (.float 0.0) else none

/-- The parts of a pattern that are its attributes. -/
def patternAttribute (p : Pattern) (name : String) : Action (Option Value) := do
  match name with
  | "pattern" => return some (.str p.source)
  | "flags" => return some (.int (Pattern.switchNumber p.switches))
  | "groups" => return some (.int p.groups)
  | "groupindex" => do
    let entries := p.names.map fun (n, i) => (Value.str n, Value.int i)
    return some (← make (.frozen entries))
  | _ => return none

/-- The parts of a policy that are its attributes. -/
def policyAttribute (p : Policy) (name : String) : Option Value :=
  match name with
  | "per_page" => some p.perPage
  | "separator" => some p.separator
  | "sort_direction" => some (.str p.direction.text)
  | "random_seed" => some p.seed
  | _ => none

/-- The extension that a chain of registries has under a name. -/
def registered? (s : Store) (name : String) : Nat → Address → Option Value
  | 0, _ => none
  | fuel + 1, a =>
    match s.cell? a with
    | some (.registry r) =>
      match r.get? name, r.parent with
      | some f, _ => some f
      | none, some p => registered? s name fuel p
      | none, none => none
    | _ => none

/-- Whether a chain of registries has an end. -/
def isBoundedAt (s : Store) : Nat → Address → Bool
  | 0, _ => false
  | fuel + 1, a =>
    match s.cell? a with
    | some (.registry r) => (r.parent.map (isBoundedAt s fuel)).getD true
    | _ => true

/-- Whether a chain of registries has an end, which it has unless one of them extends itself. -/
def isBounded (s : Store) (a : Address) : Bool := isBoundedAt s s.depth a

/-- Does what takes a whole chain of registries, unless the chain has no end. -/
def alongChain {α : Type} (a : Address) (x : Action α) : Action α := do
  if isBounded (← get).store a then x else fault .recursion

/-- The names that a chain of registries reserves. -/
def reserved (s : Store) : Nat → Address → List String
  | 0, _ => []
  | fuel + 1, a =>
    match s.cell? a with
    | some (.registry r) => r.reserved ++ ((r.parent.map (reserved s fuel)).getD [])
    | _ => []

/-- A method of a shared value. -/
def methodOf (a : Address) (name : String) : Action (Option Value) := do
  return some (.method (← serial) a name)

/-- What a collection keeps for itself. -/
def internalAttribute (c : Collection) (name : String) : Action (Option Value) := do
  match name with
  | "_items" => return some (.ref c.list)
  | "_validators" => return some (.ref c.validators)
  | "_policy" => return some (.ref c.policy)
  | "_macros" => return some (.ref c.registry)
  | "_random" => return some (.ref c.generator)
  | _ => return none

/-- An attribute of a collection: what it shows of itself, a field that a patch has set, one of its
methods, or an extension.  No extension has a name that starts with an underscore, and looking for
one goes on without end where a registry extends itself. -/
def collectionAttribute (a : Address) (c : Collection) (name : String) : Action (Option Value) := do
  match Attribute.ofName? name with
  | some .length => return some (.int ((← get).store.items c).length)
  | some .extensions => return some (.ref c.registry)
  | some .policy => return some (.ref c.policy)
  | some .validators => return some (.ref c.validators)
  | _ =>
    match c.fields.lookup name with
    | some v => return some v
    | none =>
      if name = Attribute.name .sharedExtensions then return some (.ref State.sharedRegistry)
      else if (Method.ofName? name).isSome then methodOf a name
      else if name.startsWith "_" then internalAttribute c name
      else
        let s := (← get).store
        match registered? s name s.depth c.registry with
        | some f => return some (.extension (← serial) f (.ref a))
        | none => alongChain c.registry (pure none)

/-- An attribute of a builder. -/
def builderAttribute (a : Address) (b : Builder) (name : String) : Action (Option Value) := do
  match name with
  | "operations" => return some b.shown
  | "validators" => return some b.validators
  | "executor" => return some b.executor
  | _ =>
    if (Builder.ofName? name).isSome || (Builder.others.lookup name).isSome then methodOf a name
    else return none

/-- An attribute of a registry. -/
def registryAttribute (a : Address) (r : Registry) (name : String) : Action (Option Value) := do
  if name = "parent" then return some ((r.parent.map Value.ref).getD .null)
  else if name = "reserved" then
    alongChain a do
      let s := (← get).store
      return some (← make (.set ((reserved s s.depth a).eraseDups.map .str)))
  else if (Registry.methods.lookup name).isSome then methodOf a name
  else return none

/-- An attribute of an executor. -/
def executorAttribute (e : Executor) (name : String) : Option Value :=
  match e, name with
  | .memory items _, "items" => some items
  | .memory _ policy, "policy" => some policy
  | _, _ => none

/-- The parts of an extension that are its attributes. -/
def extensionAttribute (v : Value) (name : String) : Action (Option Value) := do
  let (f, receivers) := v.appliedTo []
  match name with
  | "func" => return some f
  | "args" => return some (← make (.tuple receivers))
  | "keywords" => return some (← make (.dict []))
  | _ => return none

/-- The attribute that a value has by its kind. -/
def ownAttribute (v : Value) (name : String) : Action (Option Value) := do
  match v, v.number? with
  | _, some n => return numberAttribute n v name
  | .pattern p, none => patternAttribute p name
  | .extension _ _ _, none => extensionAttribute v name
  | .ref a, none =>
    match (← get).store.cell? a with
    | some (.object fs) => return fs.lookup name
    | some (.record _ fs) => return fs.lookup name
    | some (.custom kind fs) =>
      match kind.failure? name with
      | some e => throw e
      | none => return if kind.isComputed name then none else fs.lookup name
    | some (.collection c) => collectionAttribute a c name
    | some (.policy p) => return policyAttribute p name
    | some (.builder b) => builderAttribute a b name
    | some (.registry r) => registryAttribute a r name
    | some (.executor e) => return executorAttribute e name
    | _ => return none
  | _, none => return none

/-- The attribute of a value: one that has been set on it, or one that it has by its kind. -/
def attribute? (v : Value) (name : String) : Action (Option Value) := do
  match (← get).store.mark? v name with
  | some x => return some x
  | none => ownAttribute v name

/-- The failure of a value to have an attribute.  On a collection, names that start with an
underscore are not even looked up. -/
def lacking {α : Type} (v : Value) (name : String) : Action α := do
  if ((← get).store.collection? v).isSome && !name.startsWith "_" then throw (.noAttribute name)
  else fault .attribute

/-- The attribute of a value; a value without it fails. -/
def attributeOf (v : Value) (name : String) : Action Value := do
  match ← attribute? v name with
  | some x => return x
  | none => lacking v name

end Action

end Recordset
