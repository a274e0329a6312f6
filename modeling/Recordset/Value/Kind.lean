import Recordset.Store
set_option autoImplicit false

/-!
# Kinds of values

The name of a value's kind, as messages give it, and the classes of kinds that the library tells
apart: mappings, sequences, callables, what can be iterated and what can be a key.
-/

namespace Recordset.Store

/-- The name of the kind of a cell. -/
def cellKind : Cell → String
  | .list _ => "list"
  | .tuple _ => "tuple"
  | .set _ => "set"
  | .dict _ => "dict"
  | .frozen _ => "mappingproxy"
  | .object _ => "Obj"
  | .iterator _ => "list_iterator"
  | .hostile => "Hostile"
  | .custom kind _ => kind.name
  | .function _ => "Fn"
  | .collection _ => "Collection"
  | .registry _ => "MacroRegistry"
  | .policy _ => "Policy"
  | .generator _ => "Random"
  | .builder _ => "AsyncCollection"
  | .executor (.memory _ _) => "InMemoryExecutor"
  | .executor (.recorder _ _ _) => "Recorder"
  | .record .context _ => "ExecutorContext"
  | .record .metadata _ => "ExecutionMetadata"
  | .work _ => "coroutine"

/-- The name of the kind of a builtin function; some are kinds themselves. -/
def builtinKind : Builtin → String
  | .str | .bool | .int => "type"
  | _ => "builtin_function_or_method"

/-- The name of the kind of a value. -/
def kind (s : Store) : Value → String
  | .null => "NoneType"
  | .missing => "_Missing"
  | .bool _ => "bool"
  | .int _ => "int"
  | .float _ => "float"
  | .nan _ => "float"
  | .str _ => "str"
  | .bytes _ => "bytes"
  | .pattern _ => "Pattern"
  | .builtin b => builtinKind b
  | .extension _ _ _ => "partial"
  | .method _ _ name => if name = Method.extend.name then "function" else "method"
  | .ref a => ((s.cell? a).map cellKind).getD "object"

/-- The name of the kind of a value where a failed comparison speaks of it. -/
def comparedKind (s : Store) (v : Value) : String :=
  match v with
  | .pattern _ => "re.Pattern"
  | .extension _ _ _ => "functools.partial"
  | _ => s.kind v

/-- The entries of a mapping. -/
def entries? (s : Store) (v : Value) : Option Entries :=
  match s.view v with
  | some (.dict es) => some es
  | some (.frozen es) => some es
  | _ => none

/-- A mapping. -/
def isMapping (s : Store) (v : Value) : Bool := (s.entries? v).isSome

/-- The items of a list or a tuple. -/
def sequence? (s : Store) (v : Value) : Option (List Value) :=
  match s.view v with
  | some (.list xs) => some xs
  | some (.tuple xs) => some xs
  | _ => none

/-- A sequence of a kind of its own, which can not be read. -/
def unreadable? (s : Store) (v : Value) : Option CustomKind :=
  match s.view v with
  | some (.custom kind _) => if kind.role = .sequence then some kind else none
  | _ => none

/-- The items in the list of a collection. -/
def items (s : Store) (c : Collection) : List Value :=
  match s.cell? c.list with
  | some (.list xs) => xs
  | _ => []

/-- The collection that a value is, as it is seen now. -/
def collection? (s : Store) (v : Value) : Option Collection.Snapshot :=
  match s.view v with
  | some (.collection c) => some { c with items := s.items c }
  | _ => none

/-- A value that can be called. -/
def isCallable (s : Store) : Value → Bool
  | .builtin _ => true
  | .extension _ _ _ => true
  | .method _ _ _ => true
  | v =>
    match s.view v with
    | some (.function _) => true
    | some (.executor _) => true
    | _ => false

/-- A value that offers to be iterated, whether or not that succeeds. -/
def isIterable (s : Store) (v : Value) : Bool :=
  match v with
  | .str _ => true
  | .bytes _ => true
  | _ =>
    match s.view v with
    | some (.list _) | some (.tuple _) | some (.set _) | some (.dict _) | some (.frozen _)
    | some (.iterator _) | some (.collection _) => true
    | some (.custom kind _) => kind.isContainer
    | _ => false

/-- A value of a kind that can be a key: what is compared by its changing content can not.  A tuple
is of such a kind whatever it holds. -/
def isKeyKind (s : Store) (v : Value) : Bool :=
  match s.view v with
  | some (.list _) | some (.dict _) | some (.frozen _) | some (.set _) | some .hostile
  | some (.collection _) => false
  | _ => true

/-- A value that can be a key: one of such a kind, and with a tuple, a record or a policy all that
it holds. -/
def isKeyAt (s : Store) : Nat → Value → Bool
  | 0, _ => false
  | fuel + 1, v =>
    match s.view v with
    | some (.tuple xs) => xs.all (s.isKeyAt fuel)
    | some (.record _ fields) => fields.all fun f => s.isKeyAt fuel f.2
    | some (.policy p) => [p.perPage, p.separator, p.seed].all (s.isKeyAt fuel)
    | _ => s.isKeyKind v

/-- A value that can be a key. -/
def isKey (s : Store) (v : Value) : Bool := s.isKeyAt s.depth v

/-- Whether a value counts as true. -/
def truth (s : Store) : Value → Bool
  | .null => false
  | .missing => false
  | .bool b => b
  | .int n => n != 0
  | .float x => !(x == 0.0)
  | .str t => !t.isEmpty
  | .bytes bs => !bs.isEmpty
  | v =>
    match s.view v with
    | some (.list xs) => !xs.isEmpty
    | some (.tuple xs) => !xs.isEmpty
    | some (.set xs) => !xs.isEmpty
    | some (.dict es) => !es.isEmpty
    | some (.frozen es) => !es.isEmpty
    | some (.collection c) => !(s.items c).isEmpty
    | _ => true

end Recordset.Store
