import Recordset.Value.Attribute
set_option autoImplicit false

/-!
# Patching values

A patch is a mapping whose entries become entries of another mapping or attributes of any other
value.  A mapping is changed in place, or copied when nobody can change it.  A value without fields
of its own refuses to be patched, and some attributes can not be set on those that have fields.
-/

namespace Recordset

/-- Sets a field, in its place when it is there already. -/
def setField (fields : List (String × Value)) (name : String) (v : Value) :
    List (String × Value) :=
  if fields.any (·.1 == name) then fields.map fun f => if f.1 == name then (name, v) else f
  else fields ++ [(name, v)]

namespace Action

/-- The attributes of a collection that can not be set. -/
def isFixed (name : String) : Bool :=
  match Attribute.ofName? name with
  | some .sharedExtensions => false
  | some _ => true
  | none => false

/-- Sets an attribute of a value that keeps it for itself. -/
def setMark (v : Value) (name : String) (x : Value) : Action Unit :=
  modify fun s => { s with store := s.store.setMark v name x }

/-- Sets an attribute unless its name is among those that can not be set. -/
def setMarkUnless (fixed : List String) (v : Value) (name : String) (x : Value) : Action Unit :=
  if fixed.contains name then fault .attribute else setMark v name x

/-- Sets what a collection keeps for itself, or another attribute of it. -/
def setCollectionAttribute (a : Address) (c : Collection) (name : String) (x : Value) :
    Action Unit := do
  let s := (← get).store
  match name, x, s.view x with
  | "_items", .ref b, some (.list _) => write a (.collection { c with list := b })
  | "_validators", .ref b, some (.dict _) => write a (.collection { c with validators := b })
  | "_policy", .ref b, some (.policy _) => write a (.collection { c with policy := b })
  | "_macros", .ref b, some (.registry _) => write a (.collection { c with registry := b })
  | _, _, _ =>
    if isFixed name then fault .attribute
    else write a (.collection { c with fields := setField c.fields name x })

/-- Sets the registry that another one extends. -/
def setParent (a : Address) (r : Registry) (x : Value) : Action Unit := do
  match x, (← get).store.view x with
  | .null, _ => write a (.registry { r with parent := none })
  | .ref b, some (.registry _) => write a (.registry { r with parent := some b })
  | _, _ => setMark (.ref a) "parent" x

/-- Sets an attribute of an executor. -/
def setExecutorAttribute (a : Address) (e : Executor) (name : String) (x : Value) :
    Action Unit :=
  match e, name with
  | .memory _ policy, "items" => write a (.executor (.memory x policy))
  | .memory items _, "policy" => write a (.executor (.memory items x))
  | _, _ => setMark (.ref a) name x

/-- Sets an attribute of a shared value. -/
def setCellAttribute (a : Address) (name : String) (x : Value) : Action Unit := do
  match ← cell a with
  | .object fs => write a (.object (setField fs name x))
  | .custom kind fs =>
    if kind.isComputed name then fault .attribute else write a (.custom kind (setField fs name x))
  | .collection c => setCollectionAttribute a c name x
  | .policy _ | .record _ _ => fault .frozen
  | .registry r =>
    if name = "parent" then setParent a r x else setMarkUnless ["reserved"] (.ref a) name x
  | .builder _ => setMarkUnless ["operations", "validators", "executor"] (.ref a) name x
  | .executor e => setExecutorAttribute a e name x
  | _ => setMark (.ref a) name x

/-- Sets an attribute of a value that can have attributes. -/
def setAttribute (v : Value) (name : String) (x : Value) : Action Unit :=
  match v with
  | .ref a => setCellAttribute a name x
  | .builtin _ => fault .type
  | .extension _ _ _ => setMarkUnless ["func", "args", "keywords"] v name x
  | .method _ _ method =>
    if method = Method.extend.name then setMark v name x else fault .attribute
  | _ => setMark v name x

/-- Whether attributes can be set on a value, or some of them at least. -/
def hasAttributes (s : Store) (v : Value) : Bool :=
  match v with
  | .missing => true
  | .builtin b => Store.builtinKind b == "type"
  | .extension _ _ _ => true
  | .method _ _ _ => true
  | _ =>
    match s.view v with
    | some (.object _) | some (.collection _) | some (.function _) | some .hostile
    | some (.custom _ _) | some (.registry _) | some (.policy _) | some (.builder _)
    | some (.executor _) | some (.generator _) | some (.record _ _) => true
    | _ => false

/-- Sets an attribute for each entry of a patch. -/
def setAttributes (v : Value) : Entries → Action Unit
  | [] => return
  | (.str name, x) :: rest => do
    setAttribute v name x
    setAttributes v rest
  | _ :: _ => fault .type

/-- A value with the entries of a patch. -/
def merge (v : Value) (patch : Entries) : Action Value := do
  let s := (← get).store
  match v, s.view v with
  | .ref a, some (.dict es) => do
    write a (.dict (Entries.insertAll s es patch))
    return v
  | _, some (.frozen es) => make (.dict (Entries.insertAll s es patch))
  | _, _ =>
    if hasAttributes s v then do
      setAttributes v patch
      return v
    else refuse (.unmergeable (s.kind v))

end Action

end Recordset
