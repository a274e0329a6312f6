import Recordset.Proofs.Reaching
set_option autoImplicit false

/-!
# Scopes

A scope is what a run can get at: some of the cells, some of the serial numbers of extensions and of
methods, and what is bound to variables.  A value is in a scope when its cell or its serial number
is, and with an extension or a method also what it has been given; whatever holds values is in a
scope when all of these are (`Scope.Has`).
-/

namespace Recordset

/-- What a run can get at. -/
structure Scope where
  cells : Set Address
  /-- the serial numbers of extensions -/
  extensions : Set Nat
  /-- the serial numbers of methods -/
  methods : Set Nat
  /-- what is bound to variables -/
  bound : List (String × Value)
  default_mem : State.defaultPolicy ∈ cells
  shared_mem : State.sharedRegistry ∈ cells

/-- What holds values, which can be in a scope or not. -/
class Scoped (α : Type) where
  Held : Scope → α → Prop

/-- What holds no values. -/
class Inert (α : Type) [Scoped α] : Prop where
  held : ∀ (sc : Scope) (x : α), Scoped.Held sc x

namespace Scope

variable {sc : Scope} {α β : Type} [Scoped α] [Scoped β]

/-- All the values that something holds are in a scope. -/
def Has (sc : Scope) (x : α) : Prop := Scoped.Held sc x

/-- A value is in a scope, and so is all that it has been given. -/
def HasValue (sc : Scope) : Value → Prop
  | .ref a => a ∈ sc.cells
  | .extension serial f receiver =>
    serial ∈ sc.extensions ∧ sc.HasValue f ∧ sc.HasValue receiver
  | .method serial a _ => serial ∈ sc.methods ∧ a ∈ sc.cells
  | _ => True

instance : Scoped Address := ⟨fun sc a => a ∈ sc.cells⟩

instance : Scoped Value := ⟨HasValue⟩

instance : Scoped (List α) := ⟨fun sc xs => ∀ x ∈ xs, sc.Has x⟩

instance : Scoped (Option α) := ⟨fun sc x => ∀ a, x = some a → sc.Has a⟩

instance : Scoped (α × β) := ⟨fun sc p => sc.Has p.1 ∧ sc.Has p.2⟩

instance : Scoped (Except Error α) := ⟨fun sc r => ∀ a, r = .ok a → sc.Has a⟩

/-! ## What holds no values -/

instance : Scoped PUnit := ⟨fun _ _ => True⟩
instance : Scoped Bool := ⟨fun _ _ => True⟩
instance : Scoped Nat := ⟨fun _ _ => True⟩
instance : Scoped Int := ⟨fun _ _ => True⟩
instance : Scoped String := ⟨fun _ _ => True⟩
instance : Scoped Char := ⟨fun _ _ => True⟩
instance : Scoped UInt8 := ⟨fun _ _ => True⟩
instance : Scoped UInt64 := ⟨fun _ _ => True⟩
instance : Scoped Number := ⟨fun _ _ => True⟩
instance : Scoped Direction := ⟨fun _ _ => True⟩
instance : Scoped Generator := ⟨fun _ _ => True⟩
instance : Scoped Error := ⟨fun _ _ => True⟩

instance : Inert PUnit := ⟨fun _ _ => trivial⟩
instance : Inert Bool := ⟨fun _ _ => trivial⟩
instance : Inert Nat := ⟨fun _ _ => trivial⟩
instance : Inert Int := ⟨fun _ _ => trivial⟩
instance : Inert String := ⟨fun _ _ => trivial⟩
instance : Inert Char := ⟨fun _ _ => trivial⟩
instance : Inert UInt8 := ⟨fun _ _ => trivial⟩
instance : Inert UInt64 := ⟨fun _ _ => trivial⟩
instance : Inert Number := ⟨fun _ _ => trivial⟩
instance : Inert Direction := ⟨fun _ _ => trivial⟩
instance : Inert Generator := ⟨fun _ _ => trivial⟩
instance : Inert Error := ⟨fun _ _ => trivial⟩
instance [Inert α] : Inert (List α) := ⟨fun sc _ _ _ => Inert.held sc _⟩
instance [Inert α] : Inert (Option α) := ⟨fun sc _ _ _ => Inert.held sc _⟩
instance [Inert α] : Inert (Except Error α) := ⟨fun sc _ _ _ => Inert.held sc _⟩
instance [Inert α] [Inert β] : Inert (α × β) := ⟨fun sc _ => ⟨Inert.held sc _, Inert.held sc _⟩⟩

@[simp, grind ←]
theorem has_inert [Inert α] (sc : Scope) (x : α) : sc.Has x := Inert.held sc x

/-! ## Values -/

@[simp, grind =]
theorem has_ref {a : Address} : sc.Has (Value.ref a) ↔ sc.Has a := .rfl

@[simp, grind =]
theorem has_extension {serial : Nat} {f receiver : Value} :
    sc.Has (Value.extension serial f receiver) ↔
      serial ∈ sc.extensions ∧ sc.Has f ∧ sc.Has receiver := .rfl

@[simp, grind =]
theorem has_method {serial : Nat} {a : Address} {name : String} :
    sc.Has (Value.method serial a name) ↔ serial ∈ sc.methods ∧ sc.Has a := .rfl

@[simp, grind ←]
theorem has_null (sc : Scope) : sc.Has Value.null := trivial

@[simp, grind ←]
theorem has_missing (sc : Scope) : sc.Has Value.missing := trivial

@[simp, grind ←]
theorem has_bool (sc : Scope) (b : Bool) : sc.Has (Value.bool b) := trivial

@[simp, grind ←]
theorem has_int (sc : Scope) (n : Int) : sc.Has (Value.int n) := trivial

@[simp, grind ←]
theorem has_float (sc : Scope) (x : Float) : sc.Has (Value.float x) := trivial

@[simp, grind ←]
theorem has_nan (sc : Scope) (serial : Nat) : sc.Has (Value.nan serial) := trivial

@[simp, grind ←]
theorem has_str (sc : Scope) (t : String) : sc.Has (Value.str t) := trivial

@[simp, grind ←]
theorem has_bytes (sc : Scope) (bs : List UInt8) : sc.Has (Value.bytes bs) := trivial

@[simp, grind ←]
theorem has_pattern (sc : Scope) (p : Pattern) : sc.Has (Value.pattern p) := trivial

@[simp, grind ←]
theorem has_builtin (sc : Scope) (b : Builtin) : sc.Has (Value.builtin b) := trivial

@[simp, grind ←]
theorem has_defaultPolicy (sc : Scope) : sc.Has State.defaultPolicy := sc.default_mem

@[simp, grind ←]
theorem has_sharedRegistry (sc : Scope) : sc.Has State.sharedRegistry := sc.shared_mem

/-! ## Lists, options and pairs -/

variable {x : α} {y : β} {xs ys : List α}

@[simp, grind ←]
theorem has_nil (sc : Scope) : sc.Has ([] : List α) := fun _ h => nomatch h

@[simp, grind =]
theorem has_cons : sc.Has (x :: xs) ↔ sc.Has x ∧ sc.Has xs := List.forall_mem_cons

@[simp, grind =]
theorem has_append : sc.Has (xs ++ ys) ↔ sc.Has xs ∧ sc.Has ys := List.forall_mem_append

@[simp, grind ←]
theorem has_none (sc : Scope) : sc.Has (none : Option α) := fun _ h => nomatch h

@[simp, grind =]
theorem has_some : sc.Has (some x) ↔ sc.Has x :=
  ⟨fun h => h x rfl, fun h _ he => Option.some.inj he ▸ h⟩

@[simp, grind =]
theorem has_pair : sc.Has (x, y) ↔ sc.Has x ∧ sc.Has y := .rfl

@[simp, grind =]
theorem has_ok : sc.Has (.ok x : Except Error α) ↔ sc.Has x :=
  ⟨fun h => h x rfl, fun h _ he => Except.ok.inj he ▸ h⟩

@[simp, grind ←]
theorem has_error (sc : Scope) (e : Error) : sc.Has (.error e : Except Error α) :=
  fun _ h => nomatch h

/-- What follows on a result that is in a scope. -/
@[grind ←]
theorem has_bind {r : Except Error α} {f : α → Except Error β} (hr : sc.Has r)
    (hf : ∀ x, sc.Has x → sc.Has (f x)) : sc.Has (r >>= f) := by
  cases r with
  | ok x => exact hf x (hr x rfl)
  | error e => exact has_error sc e

@[grind ←]
theorem has_return (hx : sc.Has x) : sc.Has (pure x : Except Error α) := has_ok.mpr hx

@[grind ←]
theorem has_throw (sc : Scope) (e : Error) : sc.Has (throw e : Except Error α) := has_error sc e

theorem has_fst {p : α × β} (h : sc.Has p) : sc.Has p.1 := h.1

theorem has_snd {p : α × β} (h : sc.Has p) : sc.Has p.2 := h.2

theorem Has.mem (h : sc.Has xs) (hx : x ∈ xs) : sc.Has x := h x hx

/-- Some of the elements are in a scope when all are. -/
theorem Has.of_subset (h : sc.Has xs) (hsub : ys ⊆ xs) : sc.Has ys := fun x hx => h x (hsub hx)

theorem Has.of_sublist (h : sc.Has xs) (hsub : ys.Sublist xs) : sc.Has ys := h.of_subset hsub.subset

@[grind ←]
theorem Has.take (h : sc.Has xs) (n : Nat) : sc.Has (xs.take n) :=
  h.of_sublist (List.take_sublist n xs)

@[grind ←]
theorem Has.drop (h : sc.Has xs) (n : Nat) : sc.Has (xs.drop n) :=
  h.of_sublist (List.drop_sublist n xs)

@[grind ←]
theorem Has.dropLast (h : sc.Has xs) : sc.Has xs.dropLast := h.of_sublist (List.dropLast_sublist xs)

@[grind ←]
theorem Has.eraseIdx (h : sc.Has xs) (n : Nat) : sc.Has (xs.eraseIdx n) :=
  h.of_sublist (List.eraseIdx_sublist xs n)

@[grind ←]
theorem Has.filter (h : sc.Has xs) (p : α → Bool) : sc.Has (xs.filter p) :=
  h.of_sublist List.filter_sublist

@[grind ←]
theorem Has.reverse (h : sc.Has xs) : sc.Has xs.reverse :=
  h.of_subset fun _ hx => List.mem_reverse.mp hx

@[grind ←]
theorem Has.getElem? (h : sc.Has xs) (n : Nat) : sc.Has xs[n]? :=
  fun _ hx => h.mem (List.mem_of_getElem? hx)

@[grind ←]
theorem Has.head? (h : sc.Has xs) : sc.Has xs.head? := fun _ hx => h.mem (List.mem_of_head? hx)

@[grind ←]
theorem Has.getLast? (h : sc.Has xs) : sc.Has xs.getLast? :=
  fun _ hx => h.mem (List.mem_of_getLast? hx)

@[grind ←]
theorem Has.getD {o : Option α} (h : sc.Has o) (hx : sc.Has x) : sc.Has (o.getD x) := by
  cases o with
  | none => exact hx
  | some y => exact h y rfl

@[grind ←]
theorem Has.toList {o : Option α} (h : sc.Has o) : sc.Has o.toList :=
  fun x hx => h x (Option.mem_toList.mp hx)

@[grind ←]
theorem Has.set (h : sc.Has xs) (n : Nat) (hx : sc.Has x) : sc.Has (xs.set n x) := by
  intro z hz
  rcases List.mem_or_eq_of_mem_set hz with hz | rfl
  · exact h.mem hz
  · exact hx

omit [Scoped α] in
/-- What is made of the elements is in a scope when it is for each of them. -/
theorem has_map {f : α → β} (h : ∀ x ∈ xs, sc.Has (f x)) : sc.Has (xs.map f) := by
  intro y hy
  obtain ⟨x, hx, rfl⟩ := List.mem_map.mp hy
  exact h x hx

omit [Scoped α] in
theorem has_filterMap {f : α → Option β} (h : ∀ x ∈ xs, sc.Has (f x)) :
    sc.Has (xs.filterMap f) := by
  intro y hy
  obtain ⟨x, hx, hy⟩ := List.mem_filterMap.mp hy
  exact h x hx y hy

omit [Scoped α] in
theorem has_flatMap {f : α → List β} (h : ∀ x ∈ xs, sc.Has (f x)) : sc.Has (xs.flatMap f) := by
  intro y hy
  obtain ⟨x, hx, hy⟩ := List.mem_flatMap.mp hy
  exact (h x hx).mem hy

@[grind ←]
theorem Has.map_fst {ps : List (α × β)} (h : sc.Has ps) : sc.Has (ps.map (·.1)) :=
  has_map fun _ hp => has_fst (h.mem hp)

@[grind ←]
theorem Has.map_snd {ps : List (α × β)} (h : sc.Has ps) : sc.Has (ps.map (·.2)) :=
  has_map fun _ hp => has_snd (h.mem hp)

@[grind ←]
theorem Has.zip {zs : List β} (h : sc.Has xs) (hz : sc.Has zs) : sc.Has (xs.zip zs) := by
  rintro ⟨x, z⟩ hp
  have hmem := List.of_mem_zip hp
  exact ⟨h.mem hmem.1, hz.mem hmem.2⟩

@[grind ←]
theorem Has.find? (h : sc.Has xs) (p : α → Bool) : sc.Has (xs.find? p) :=
  fun _ hx => h.mem (List.mem_of_find?_eq_some hx)

@[grind ←]
theorem Has.lookup {fields : List (String × α)} (h : sc.Has fields) (name : String) :
    sc.Has (fields.lookup name) := by
  intro x hx
  obtain ⟨front, back, rfl, -⟩ := List.lookup_eq_some_iff.mp hx
  exact has_snd (h.mem (List.mem_append_right _ List.mem_cons_self))

@[grind ←]
theorem Has.option_map {f : α → β} {o : Option α} (hf : ∀ x, sc.Has x → sc.Has (f x))
    (h : sc.Has o) : sc.Has (o.map f) := by
  cases o with
  | none => exact has_none sc
  | some x => exact has_some.mpr (hf x (has_some.mp h))

/-! ## What cells hold -/

instance : Scoped Cell := ⟨fun sc c => sc.Has (c.holds sc.bound)⟩

instance : Scoped Expr := ⟨fun sc e => sc.Has (e.names sc.bound)⟩

instance : Scoped Function := ⟨fun sc f => sc.Has (f.holds sc.bound)⟩

instance : Scoped Policy := ⟨fun sc p => sc.Has p.perPage ∧ sc.Has p.separator ∧ sc.Has p.seed⟩

instance : Scoped Collection :=
  ⟨fun sc c => sc.Has c.list ∧ sc.Has c.validators ∧ sc.Has c.policy ∧ sc.Has c.registry ∧
    sc.Has c.generator ∧ sc.Has c.fields⟩

instance : Scoped Collection.Snapshot := ⟨fun sc c => sc.Has c.toCollection ∧ sc.Has c.items⟩

instance : Scoped Registry := ⟨fun sc r => sc.Has r.parent ∧ sc.Has r.table⟩

instance : Scoped Operation := ⟨fun sc o => sc.Has o.parts ∧ sc.Has o.shown⟩

instance : Scoped Execution := ⟨fun sc e => sc.Has e.outcome⟩

instance : Scoped Builder :=
  ⟨fun sc b => sc.Has b.executor ∧ sc.Has b.validators ∧ sc.Has b.shown ∧ sc.Has b.operations ∧
    sc.Has b.execution⟩

instance : Scoped Executor := ⟨fun sc e => match e with
  | .memory items policy => sc.Has items ∧ sc.Has policy
  | .recorder _ value contexts => sc.Has value ∧ sc.Has contexts⟩

@[grind =]
theorem has_policy_iff {p : Policy} :
    sc.Has p ↔ sc.Has p.perPage ∧ sc.Has p.separator ∧ sc.Has p.seed := .rfl

@[grind =]
theorem has_collection_iff {c : Collection} :
    sc.Has c ↔ sc.Has c.list ∧ sc.Has c.validators ∧ sc.Has c.policy ∧ sc.Has c.registry ∧
      sc.Has c.generator ∧ sc.Has c.fields := .rfl

@[grind =]
theorem has_snapshot_iff {c : Collection.Snapshot} :
    sc.Has c ↔ sc.Has c.toCollection ∧ sc.Has c.items := .rfl

@[grind =]
theorem has_registry_iff {r : Registry} : sc.Has r ↔ sc.Has r.parent ∧ sc.Has r.table := .rfl

@[grind =]
theorem has_operation_iff {o : Operation} : sc.Has o ↔ sc.Has o.parts ∧ sc.Has o.shown := .rfl

@[grind =]
theorem has_execution_iff {e : Execution} : sc.Has e ↔ sc.Has e.outcome := .rfl

@[grind =]
theorem has_builder_iff {b : Builder} :
    sc.Has b ↔ sc.Has b.executor ∧ sc.Has b.validators ∧ sc.Has b.shown ∧ sc.Has b.operations ∧
      sc.Has b.execution := .rfl

@[simp, grind =]
theorem has_memory {items policy : Value} :
    sc.Has (Executor.memory items policy) ↔ sc.Has items ∧ sc.Has policy := .rfl

@[simp, grind =]
theorem has_recorder {behaviour : Behaviour} {value : Value} {contexts : List Value} :
    sc.Has (Executor.recorder behaviour value contexts) ↔ sc.Has value ∧ sc.Has contexts := .rfl

/-! ### Cells -/

/-- The values of entries are in a scope one by one. -/
theorem has_entries_iff {es : Entries} : sc.Has (es.flatMap fun e => [e.1, e.2]) ↔ sc.Has es := by
  constructor
  · intro h e he
    have hparts : ∀ v ∈ [e.1, e.2], sc.Has v := fun v hv =>
      h.mem (List.mem_flatMap.mpr ⟨e, he, hv⟩)
    exact ⟨hparts _ (by simp), hparts _ (by simp)⟩
  · intro h
    refine has_flatMap fun e he => ?_
    have hpair := h.mem he
    exact has_cons.mpr ⟨hpair.1, has_cons.mpr ⟨hpair.2, has_nil sc⟩⟩

theorem has_fields_iff {fields : List (String × Value)} :
    sc.Has (fields.map (·.2)) ↔ sc.Has fields := by
  refine ⟨fun h p hp => ⟨trivial, h.mem (List.mem_map_of_mem hp)⟩, Has.map_snd⟩

variable {vs : List Value} {es : Entries} {fields : List (String × Value)}

@[simp, grind =]
theorem has_cell_list : sc.Has (Cell.list vs) ↔ sc.Has vs := .rfl

@[simp, grind =]
theorem has_cell_tuple : sc.Has (Cell.tuple vs) ↔ sc.Has vs := .rfl

@[simp, grind =]
theorem has_cell_set : sc.Has (Cell.set vs) ↔ sc.Has vs := .rfl

@[simp, grind =]
theorem has_cell_iterator : sc.Has (Cell.iterator vs) ↔ sc.Has vs := .rfl

@[simp, grind =]
theorem has_cell_dict : sc.Has (Cell.dict es) ↔ sc.Has es := has_entries_iff

@[simp, grind =]
theorem has_cell_frozen : sc.Has (Cell.frozen es) ↔ sc.Has es := has_entries_iff

@[simp, grind =]
theorem has_cell_object : sc.Has (Cell.object fields) ↔ sc.Has fields := has_fields_iff

@[simp, grind =]
theorem has_cell_record {kind : RecordKind} :
    sc.Has (Cell.record kind fields) ↔ sc.Has fields := has_fields_iff

@[simp, grind ←]
theorem has_cell_hostile (sc : Scope) : sc.Has Cell.hostile := has_nil sc

@[simp, grind =]
theorem has_cell_custom {kind : CustomKind} :
    sc.Has (Cell.custom kind fields) ↔ sc.Has fields := has_fields_iff

@[simp, grind ←]
theorem has_cell_generator (sc : Scope) (g : Generator) : sc.Has (Cell.generator g) := has_nil sc

@[simp, grind =]
theorem has_cell_function {f : Function} : sc.Has (Cell.function f) ↔ sc.Has f := .rfl

@[simp, grind =]
theorem has_cell_policy {p : Policy} : sc.Has (Cell.policy p) ↔ sc.Has p := by
  show sc.Has [p.perPage, p.separator, p.seed] ↔ _
  simp [has_policy_iff]

@[simp, grind =]
theorem has_cell_collection {c : Collection} : sc.Has (Cell.collection c) ↔ sc.Has c := by
  show sc.Has ([_, _, _, _, _] ++ c.fields.map (·.2)) ↔ _
  rw [has_append, has_fields_iff]
  simp [has_collection_iff, and_assoc]

@[simp, grind =]
theorem has_cell_registry {r : Registry} : sc.Has (Cell.registry r) ↔ sc.Has r := by
  show sc.Has (r.parent.toList.map .ref ++ r.table.map (·.2)) ↔ _
  rw [has_append, has_fields_iff, has_registry_iff]
  cases r.parent <;> simp

@[simp, grind =]
theorem has_cell_executor {e : Executor} : sc.Has (Cell.executor e) ↔ sc.Has e := by
  cases e with
  | memory items policy =>
    show sc.Has [items, policy] ↔ _
    simp
  | recorder behaviour value contexts => exact has_cons

theorem has_outcome_iff {o : Outcome} : sc.Has (Outcome.holds o) ↔ sc.Has o := by
  cases o with
  | ok v =>
    show sc.Has [v] ↔ _
    simp
  | error e => exact ⟨fun _ => has_error sc e, fun _ => has_nil sc⟩

@[simp, grind =]
theorem has_cell_work {o : Outcome} : sc.Has (Cell.work o) ↔ sc.Has o := has_outcome_iff

theorem has_operations_iff {os : List Operation} :
    sc.Has (os.flatMap fun o => o.shown :: o.parts) ↔ sc.Has os := by
  constructor
  · intro h o ho
    have hparts : sc.Has (o.shown :: o.parts) := fun v hv =>
      h.mem (List.mem_flatMap.mpr ⟨o, ho, hv⟩)
    exact ⟨(has_cons.mp hparts).2, (has_cons.mp hparts).1⟩
  · exact fun h => has_flatMap fun o ho => has_cons.mpr ⟨(h.mem ho).2, (h.mem ho).1⟩

@[simp, grind =]
theorem has_cell_builder {b : Builder} : sc.Has (Cell.builder b) ↔ sc.Has b := by
  show sc.Has ([b.executor, b.validators, b.shown] ++
    b.operations.flatMap (fun o => o.shown :: o.parts) ++
      b.execution.toList.flatMap fun e => Outcome.holds e.outcome) ↔ _
  rw [has_append, has_append, has_operations_iff, has_builder_iff]
  cases b.execution with
  | none => simp [and_assoc]
  | some e => simp [and_assoc, has_outcome_iff, has_execution_iff]

end Scope

end Recordset
