import Recordset.Value.Kind
set_option autoImplicit false

/-!
# Observing values

`Store.observe` takes a value apart into the tree that an observer sees now.
-/

namespace Recordset

namespace Store

/-- What an observer sees of a value, down to a bound on its nesting. -/
def observeAt (s : Store) : Nat → Value → Datum
  | 0, _ => .null
  | fuel + 1, v =>
    match v with
    | .null => .null
    | .missing => .missing
    | .bool b => .bool b
    | .int n => .int n
    | .float x => .float x
    | .nan _ => .float Number.notANumber
    | .str t => .str t
    | .bytes bs => .bytes bs
    | .pattern p => .pattern p
    | .builtin _ => .callable
    | .extension _ _ _ => .callable
    | .method _ _ _ => .callable
    | .ref a =>
      match s.cell? a with
      | some (.list xs) => .list (xs.map (s.observeAt fuel))
      | some (.tuple xs) => .tuple (xs.map (s.observeAt fuel))
      | some (.set xs) => .set (xs.map (s.observeAt fuel))
      | some (.dict es) => .dict (es.map fun (k, v) => (s.observeAt fuel k, s.observeAt fuel v))
      | some (.frozen es) =>
        .frozen (es.map fun (k, v) => (s.observeAt fuel k, s.observeAt fuel v))
      | some (.object fs) => .object (fs.map fun (k, v) => (k, s.observeAt fuel v))
      | some (.iterator _) => .iterator
      | some .hostile => .hostile
      | some (.custom kind fs) =>
        if kind.isContainer then .unsteady
        else .object (fs.map fun (k, v) => (k, s.observeAt fuel v))
      | some (.function _) => .callable
      | some (.collection c) => .collection ((s.items c).map (s.observeAt fuel))
      | some (.registry _) => .registry
      | some (.policy p) =>
        .policy (s.observeAt fuel p.perPage) (s.observeAt fuel p.separator) p.direction.text
          (s.observeAt fuel p.seed)
      | some (.builder b) =>
        .deferred (b.operations.map fun o => s.observeAt fuel o.shown)
      | some (.executor _) => .executor
      | some (.record _ _) => .context
      | some (.work _) => .null
      | some (.generator _) => .null
      | none => .null

/-- What an observer sees of a value. -/
def observe (s : Store) (v : Value) : Datum := s.observeAt s.depth v

end Store

/-- What an observer sees of the value of an outcome. -/
def State.seen (r : Outcome × State) : Except Error Datum := r.1.map r.2.store.observe

end Recordset
