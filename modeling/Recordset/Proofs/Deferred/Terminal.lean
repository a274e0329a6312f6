import Recordset.Proofs.Deferred.Replay
import Recordset.Proofs.Extension.Lookup
import Recordset.Proofs.Plain
set_option autoImplicit false

/-!
# Where a replay ends

An executor over a list carries out recorded operations from left to right, on a collection that it
has just made over a copy of the list.  Whether to go on is only known from what an operation gives:
a collection is gone on from, and anything else is the end of the replay (`Replayed`).  An operation
that fails is the end of it too.  Where operations are left over behind a value that is no
collection, the first of them is refused, and none of them is carried out.

`Executor.call_replays` is the main statement.  It says of every log of operations how far it is
carried out, and of the state that the executor leaves that it is the one in which the last of these
operations has left it.
-/

namespace Recordset

/-- A recorded operation: the name that it was recorded under, and its arguments. -/
structure Recorded where
  name : String
  args : List Value := []

namespace Recorded

/-- A value shows an operation: it is a tuple of the name and the arguments. -/
def IsShownBy (s : State) (op : Recorded) (v : Value) : Prop :=
  ∃ a, v = .ref a ∧ s.store.cell? a = some (.tuple (.str op.name :: op.args))

theorem IsShownBy.evolve {s t : State} {op : Recorded} {v : Value} (h : op.IsShownBy s v)
    (hst : s.Evolves t) : op.IsShownBy t v := by
  obtain ⟨a, rfl, hcell⟩ := h
  exact ⟨a, rfl, hst.tuple hcell⟩

/-- Carries out an operation on a value. -/
def carryOut (op : Recorded) (caller : Caller) (v : Value) : Action Value :=
  Executor.perform caller v (.str op.name) op.args

theorem evolves_of_carryOut {caller : Caller} (hcaller : Action.SteadyCaller caller)
    {op : Recorded} {v : Value} {s t : State} {r : Except Error Value}
    (hrun : (op.carryOut caller v).execute s = (r, t)) : s.Evolves t :=
  Action.evolves_of_execute (Executor.steady_perform hcaller v (.str op.name) op.args) hrun

end Recorded

/-- Operations are carried out one after another, each on what the one before it gave, and that has
to be a collection.  What they come to is what the last one gives, or how it fails. -/
inductive Replayed (caller : Caller) :
    Value → State → List Recorded → Except Error Value → State → Prop where
  | none (v : Value) (s : State) : Replayed caller v s [] (.ok v) s
  | last {v : Value} {s t : State} {op : Recorded} {r : Except Error Value}
    (hrun : (op.carryOut caller v).execute s = (r, t)) : Replayed caller v s [op] r t
  | next {v w : Value} {s t u : State} {op after : Recorded} {ops : List Recorded}
    {r : Except Error Value} (hrun : (op.carryOut caller v).execute s = (.ok w, t))
    (hcollection : (t.store.collection? w).isSome = true)
    (hrest : Replayed caller w t (after :: ops) r u) :
    Replayed caller v s (op :: after :: ops) r u

/-- The names of what a collection keeps for itself. -/
def Collection.keptNames : List String := ["_items", "_validators", "_policy", "_macros", "_random"]

/-- A collection has nothing that can be called under a name.  No attribute has been set on it under
that name, which is either none of its own, and no extension is found under it, or that of an
attribute, of which none can be called. -/
def Store.Lacks (s : Store) (v : Value) (name : String) : Prop :=
  ∃ a c, v = .ref a ∧ s.cell? a = some (.collection c) ∧ s.mark? v name = none ∧
    c.fields.lookup name = none ∧
    ((¬Collection.IsOwnName name ∧ Registry.lookup s c.registry name = none ∧
        ¬c.SeeksOn s name) ∨
      ((∃ m : Attribute, name = m.name) ∨ name ∈ Collection.keptNames) ∧
        ∀ p ∈ [c.list, c.validators, c.policy, c.registry, c.generator, State.sharedRegistry],
          s.isCallable (.ref p) = false)

theorem Store.Lacks.isSome_collection? {s : Store} {v : Value} {name : String}
    (h : s.Lacks v name) : (s.collection? v).isSome = true := by
  obtain ⟨a, c, rfl, hcell, -⟩ := h
  have hview : s.view (.ref a) = some (.collection c) := hcell
  simp [Store.collection?, hview]

/-- A collection looks for an extension under a name in a chain of registries that has no end. -/
def Store.SeeksOn (s : Store) (v : Value) (name : String) : Prop :=
  ∃ a c, v = .ref a ∧ s.cell? a = some (.collection c) ∧ s.mark? v name = none ∧ c.SeeksOn s name

theorem Store.SeeksOn.isSome_collection? {s : Store} {v : Value} {name : String}
    (h : s.SeeksOn v name) : (s.collection? v).isSome = true := by
  obtain ⟨a, c, rfl, hcell, -⟩ := h
  have hview : s.view (.ref a) = some (.collection c) := hcell
  simp [Store.collection?, hview]

/-! ## How far operations are carried out -/

section

variable {caller : Caller}

/-- Operations are carried out to the last one, or to one that fails, or to one that gives no
collection. -/
theorem exists_replayed (log : List Recorded) : ∀ (v : Value) (s : State),
    ∃ done rest r u, log = done ++ rest ∧ Replayed caller v s done r u ∧
      (rest = [] ∨ done ≠ [] ∧ ∀ w, r = .ok w → u.store.collection? w = none) := by
  induction log with
  | nil => exact fun v s => ⟨[], [], .ok v, s, rfl, .none v s, .inl rfl⟩
  | cons op log ih =>
    intro v s
    cases hrun : (op.carryOut caller v).execute s with
    | mk r t =>
      cases r with
      | error e =>
        exact ⟨[op], log, .error e, t, rfl, .last hrun, .inr ⟨List.cons_ne_nil _ _, nofun⟩⟩
      | ok w =>
        cases hcollection : t.store.collection? w with
        | none =>
          refine ⟨[op], log, .ok w, t, rfl, .last hrun, .inr ⟨List.cons_ne_nil _ _, ?_⟩⟩
          intro x hx
          cases hx
          exact hcollection
        | some c =>
          obtain ⟨done, rest, r, u, rfl, hdone, hend⟩ := ih w t
          cases done with
          | nil =>
            obtain rfl : rest = [] := hend.resolve_right fun h => h.1 rfl
            exact ⟨[op], [], .ok w, t, rfl, .last hrun, .inl rfl⟩
          | cons after done =>
            refine ⟨op :: after :: done, rest, r, u, rfl,
              .next hrun (by rw [hcollection]; rfl) hdone, ?_⟩
            exact hend.imp_right fun h => ⟨List.cons_ne_nil _ _, h.2⟩

/-- The last operation is carried out on what those before it came to. -/
theorem Replayed.last_of_append {last : Recorded} {r : Except Error Value} {u : State} :
    ∀ {done : List Recorded} {v : Value} {s : State}, Replayed caller v s (done ++ [last]) r u →
      ∃ w t, Replayed caller v s done (.ok w) t ∧
        (done = [] ∨ (t.store.collection? w).isSome = true) ∧
        (last.carryOut caller w).execute t = (r, u)
  | [], v, s, .last hrun => ⟨v, s, .none v s, .inl rfl, hrun⟩
  | [_], _, _, .next hrun hcollection (.last hlast) =>
    ⟨_, _, .last hrun, .inr hcollection, hlast⟩
  | _ :: second :: done, _, _, .next hrun hcollection hrest => by
    have hafter : Replayed caller _ _ (second :: done ++ [last]) r u := hrest
    obtain ⟨w, t, hdone, hgoes, hlast⟩ := hafter.last_of_append
    exact ⟨w, t, .next hrun hcollection hdone, .inr (hgoes.resolve_left (List.cons_ne_nil _ _)),
      hlast⟩

end

namespace Executor

/-! ## One operation -/

section

variable {s : State} {v : Value}

/-- Special names are names of a collection's own. -/
theorem ofSpecialName?_of_not_isOwnName {name : String} (hname : ¬Collection.IsOwnName name) :
    Request.ofSpecialName? name = none := by
  unfold Request.ofSpecialName?
  split
  · rfl
  · rename_i hne
    refine List.find?_eq_none.mpr fun r _ hr => hname (.inr (.inr ?_))
    rw [← beq_iff_eq.mp hr] at hne ⊢
    cases r with
    | part | hash => exact absurd rfl hne
    | _ => decide +kernel

/-- What a collection has under a name for which it has nothing to be called: nothing, under a name
that is not special either, or a value that can not be called. -/
theorem execute_attribute?_of_lacks {name : String} (h : s.store.Lacks v name) :
    ∃ o, (Action.attribute? v name).execute s = (.ok o, s) ∧
      ((o = none ∧ Request.ofSpecialName? name = none) ∨
        ∃ f, o = some f ∧ s.store.isCallable f = false) := by
  obtain ⟨a, c, rfl, hcell, hmark, hfield, hname⟩ := h
  rw [Collection.execute_attribute? hcell hmark]
  rcases hname with ⟨hown, hextension, hends⟩ | ⟨⟨m, rfl⟩ | hkept, hparts⟩
  · have hbuiltin : name ∉ builtinNames := fun h => hown (.inl h)
    have hprivate : name ∉ Collection.privateNames := fun h => hown (.inr (.inl h))
    refine ⟨none, ?_, .inl ⟨rfl, ofSpecialName?_of_not_isOwnName hown⟩⟩
    rw [Collection.execute_collectionAttribute hbuiltin hfield,
      Collection.internalAttribute_of_not_private c hprivate, hextension]
    split
    · rfl
    · rename_i hvisible
      have hbounded : Action.isBounded s.store c.registry = true := by
        by_contra hendless
        exact hends ⟨hbuiltin, hfield, by simpa using hvisible, hextension, by simpa using hendless⟩
      rw [Action.execute_alongChain_of_bounded _ hbounded]
      rfl
  · unfold Action.collectionAttribute
    cases m with
    | length => exact ⟨_, rfl, .inr ⟨_, rfl, rfl⟩⟩
    | extensions => exact ⟨_, rfl, .inr ⟨_, rfl, hparts c.registry (by simp)⟩⟩
    | policy => exact ⟨_, rfl, .inr ⟨_, rfl, hparts c.policy (by simp)⟩⟩
    | validators => exact ⟨_, rfl, .inr ⟨_, rfl, hparts c.validators (by simp)⟩⟩
    | sharedExtensions =>
      refine ⟨_, ?_, .inr ⟨_, rfl, hparts State.sharedRegistry (by simp)⟩⟩
      rw [show Attribute.ofName? (Attribute.name .sharedExtensions) = some .sharedExtensions by
        decide, hfield]
      rfl
  · have hfacts : ∀ n ∈ Collection.keptNames, n ∉ builtinNames ∧ n.startsWith "_" = true := by
      decide +kernel
    obtain ⟨hbuiltin, hunderscore⟩ := hfacts name hkept
    rw [Collection.execute_collectionAttribute hbuiltin hfield, if_pos hunderscore]
    simp only [Collection.keptNames, List.mem_cons, List.not_mem_nil, or_false] at hkept
    rcases hkept with rfl | rfl | rfl | rfl | rfl
    · exact ⟨_, rfl, .inr ⟨_, rfl, hparts c.list (by simp)⟩⟩
    · exact ⟨_, rfl, .inr ⟨_, rfl, hparts c.validators (by simp)⟩⟩
    · exact ⟨_, rfl, .inr ⟨_, rfl, hparts c.policy (by simp)⟩⟩
    · exact ⟨_, rfl, .inr ⟨_, rfl, hparts c.registry (by simp)⟩⟩
    · exact ⟨_, rfl, .inr ⟨_, rfl, hparts c.generator (by simp)⟩⟩

/-- An operation fails whose extension is looked for without end. -/
theorem carryOut_of_seeksOn (caller : Caller) {op : Recorded}
    (h : s.store.SeeksOn v (methodName op.name)) :
    (op.carryOut caller v).execute s = (.error (.fault .recursion), s) := by
  obtain ⟨a, c, rfl, hcell, hmark, hseeks⟩ := h
  exact Action.execute_bind_of_error
    (Action.execute_attribute?_of_fails (.extension hcell hmark hseeks))

/-- An operation is refused for which a collection has nothing to be called. -/
theorem carryOut_of_lacks (caller : Caller) {op : Recorded}
    (h : s.store.Lacks v (methodName op.name)) :
    (op.carryOut caller v).execute s = (.error (.refusal (.unknownOperation op.name)), s) := by
  obtain ⟨o, ho, hcases⟩ := execute_attribute?_of_lacks h
  unfold Recorded.carryOut perform
  dsimp only
  rw [Action.execute_bind_of_ok ho]
  obtain ⟨rfl, hspecial⟩ | ⟨f, rfl, hf⟩ := hcases
  · rw [hspecial]
    rfl
  · dsimp only
    rw [Action.execute_get_bind, hf]
    rfl

end

/-! ## Many operations -/

section

variable {caller : Caller} {v w : Value} {s t : State} {op after : Recorded} {x y : Value}
  {xs : List Value} {e : Error}

/-- A replay carries out its first operation. -/
theorem execute_replay_first (hx : op.IsShownBy s x) :
    (replay caller v (x :: xs)).execute s = (op.carryOut caller v >>= fun next => do
      match xs, (← get).store.collection? next with
      | [], _ => return next
      | _ :: _, some _ => replay caller next xs
      | after :: _, none => do
        let (following, _) ← parts after
        Action.refuse (.afterTerminal (← Action.look (Store.text · following))
          (← Action.look (Store.text · (.str op.name))))).execute s := by
  obtain ⟨a, rfl, hcell⟩ := hx
  rw [replay, Action.execute_bind_of_ok (execute_parts hcell)]
  rfl

/-- Where the first operation fails, the replay does. -/
theorem execute_replay_of_error (hx : op.IsShownBy s x)
    (hrun : (op.carryOut caller v).execute s = (.error e, t)) :
    (replay caller v (x :: xs)).execute s = (.error e, t) := by
  rw [execute_replay_first hx, Action.execute_bind_of_error hrun]

/-- What the last operation gives is what the replay gives. -/
theorem execute_replay_of_last (hx : op.IsShownBy s x)
    (hrun : (op.carryOut caller v).execute s = (.ok w, t)) :
    (replay caller v [x]).execute s = (.ok w, t) := by
  rw [execute_replay_first hx, Action.execute_bind_of_ok hrun]
  rfl

/-- From a collection the replay goes on. -/
theorem execute_replay_of_next (hx : op.IsShownBy s x)
    (hrun : (op.carryOut caller v).execute s = (.ok w, t))
    (hcollection : (t.store.collection? w).isSome = true) :
    (replay caller v (x :: y :: xs)).execute s = (replay caller w (y :: xs)).execute t := by
  obtain ⟨c, hc⟩ := Option.isSome_iff_exists.mp hcollection
  rw [execute_replay_first hx, Action.execute_bind_of_ok hrun, Action.execute_get_bind, hc]

/-- From anything else it does not. -/
theorem execute_replay_of_terminal (hx : op.IsShownBy s x) (hy : after.IsShownBy t y)
    (hrun : (op.carryOut caller v).execute s = (.ok w, t))
    (hterminal : t.store.collection? w = none) :
    (replay caller v (x :: y :: xs)).execute s =
      (.error (.refusal (.afterTerminal after.name op.name)), t) := by
  obtain ⟨a, rfl, hcell⟩ := hy
  rw [execute_replay_first hx, Action.execute_bind_of_ok hrun, Action.execute_get_bind, hterminal]
  dsimp only
  rw [Action.execute_bind_of_ok (execute_parts hcell)]
  rfl

end

section

variable {caller : Caller} (hcaller : Action.SteadyCaller caller) {v w : Value} {s u : State}
  {done rest : List Recorded} {xs : List Value}
include hcaller

/-- The operations behind the first one are still shown when that has been carried out. -/
theorem shown_of_carryOut {op : Recorded} {ops : List Recorded} {t : State}
    {r : Except Error Value} (hrun : (op.carryOut caller v).execute s = (r, t))
    (hxs : List.Forall₂ (Recorded.IsShownBy s) ops xs) :
    List.Forall₂ (Recorded.IsShownBy t) ops xs :=
  hxs.imp fun _ _ h => h.evolve (Recorded.evolves_of_carryOut hcaller hrun)

/-- A replay fails where the operations do that are carried out. -/
theorem execute_replay_of_failing {e : Error} (h : Replayed caller v s done (.error e) u)
    (hxs : List.Forall₂ (Recorded.IsShownBy s) (done ++ rest) xs) :
    (replay caller v xs).execute s = (.error e, u) := by
  generalize hr : (Except.error e : Except Error Value) = r at h
  induction h generalizing xs with
  | none => cases hr
  | last hrun =>
    subst hr
    obtain _ | ⟨hx, -⟩ := hxs
    exact execute_replay_of_error hx hrun
  | next hrun hcollection _ ih =>
    obtain _ | ⟨hx, hxs⟩ := hxs
    obtain _ | ⟨hy, hys⟩ := hxs
    rw [execute_replay_of_next hx hrun hcollection]
    exact ih (shown_of_carryOut hcaller hrun (.cons hy hys)) hr

/-- A replay goes on from a collection with the operations that are left, and ends with what the
last operation gives. -/
theorem execute_replay_of_going (h : Replayed caller v s done (.ok w) u)
    (hgoes : done = [] ∨ rest = [] ∨ (u.store.collection? w).isSome = true)
    (hxs : List.Forall₂ (Recorded.IsShownBy s) (done ++ rest) xs) :
    ∃ ys, List.Forall₂ (Recorded.IsShownBy u) rest ys ∧
      (replay caller v xs).execute s = (replay caller w ys).execute u := by
  generalize hr : (Except.ok w : Except Error Value) = r at h
  induction h generalizing xs with
  | none =>
    cases hr
    exact ⟨xs, hxs, rfl⟩
  | last hrun =>
    subst hr
    obtain _ | ⟨hx, hxs⟩ := hxs
    refine ⟨_, shown_of_carryOut hcaller hrun hxs, ?_⟩
    cases hxs with
    | nil => exact execute_replay_of_last hx hrun
    | cons hy hys =>
      have hcollection := (hgoes.resolve_left (List.cons_ne_nil _ _)).resolve_left
        (List.cons_ne_nil _ _)
      exact execute_replay_of_next hx hrun hcollection
  | next hrun hcollection _ ih =>
    obtain _ | ⟨hx, hxs⟩ := hxs
    obtain _ | ⟨hy, hys⟩ := hxs
    rw [execute_replay_of_next hx hrun hcollection]
    exact ih (.inr (hgoes.resolve_left (List.cons_ne_nil _ _)))
      (shown_of_carryOut hcaller hrun (.cons hy hys)) hr

/-- A replay refuses the operation behind the one that gives no collection. -/
theorem execute_replay_of_refused {last after : Recorded}
    (h : Replayed caller v s (done ++ [last]) (.ok w) u) (hterminal : u.store.collection? w = none)
    (hxs : List.Forall₂ (Recorded.IsShownBy s) (done ++ last :: after :: rest) xs) :
    (replay caller v xs).execute s =
      (.error (.refusal (.afterTerminal after.name last.name)), u) := by
  obtain ⟨z, t, hdone, hgoes, hrun⟩ := h.last_of_append
  obtain ⟨ys, hys, hreplay⟩ := execute_replay_of_going hcaller hdone
    (hgoes.imp_right .inr) hxs
  obtain _ | ⟨hx, hys⟩ := hys
  obtain _ | ⟨hy, -⟩ := hys
  rw [hreplay]
  exact execute_replay_of_terminal hx
    (hy.evolve (Recorded.evolves_of_carryOut hcaller hrun)) hrun hterminal

/-- A replay refuses the operation for which it has come to a collection without such a method. -/
theorem execute_replay_of_lacks {op : Recorded} (h : Replayed caller v s done (.ok w) u)
    (hlacks : u.store.Lacks w (methodName op.name))
    (hxs : List.Forall₂ (Recorded.IsShownBy s) (done ++ op :: rest) xs) :
    (replay caller v xs).execute s = (.error (.refusal (.unknownOperation op.name)), u) := by
  obtain ⟨ys, hys, hreplay⟩ := execute_replay_of_going hcaller h
    (.inr (.inr hlacks.isSome_collection?)) hxs
  obtain _ | ⟨hx, -⟩ := hys
  rw [hreplay]
  exact execute_replay_of_error hx (carryOut_of_lacks caller hlacks)

/-- A replay fails at an operation whose extension is looked for without end. -/
theorem execute_replay_of_seeksOn {op : Recorded} (h : Replayed caller v s done (.ok w) u)
    (hseeks : u.store.SeeksOn w (methodName op.name))
    (hxs : List.Forall₂ (Recorded.IsShownBy s) (done ++ op :: rest) xs) :
    (replay caller v xs).execute s = (.error (.fault .recursion), u) := by
  obtain ⟨ys, hys, hreplay⟩ := execute_replay_of_going hcaller h
    (.inr (.inr hseeks.isSome_collection?)) hxs
  obtain _ | ⟨hx, -⟩ := hys
  rw [hreplay]
  exact execute_replay_of_error hx (carryOut_of_seeksOn caller hseeks)

/-- A replay ends with what the last operation gives. -/
theorem execute_replay_of_all (h : Replayed caller v s done (.ok w) u)
    (hxs : List.Forall₂ (Recorded.IsShownBy s) done xs) :
    (replay caller v xs).execute s = (.ok w, u) := by
  obtain ⟨ys, hys, hreplay⟩ := execute_replay_of_going hcaller h (.inr (.inl rfl))
    ((List.append_nil done).symm ▸ hxs)
  obtain rfl := List.forall₂_nil_left_iff.mp hys
  rw [hreplay]
  rfl

end

/-! ## A whole run -/

/-- What is made is a collection in a new cell. -/
def MakesCollection (x : Action Address) : Prop :=
  ∀ s a t, x.execute s = (.ok a, t) →
    s.store.size ≤ a.index ∧ ∃ c, t.store.cell? a = some (.collection c)

theorem makesCollection_bind {α : Type} {x : Action α} {f : α → Action Address}
    (hx : Action.Steady x) (hf : ∀ r, MakesCollection (f r)) : MakesCollection (x >>= f) := by
  intro s a u hrun
  obtain ⟨r, t, hfirst, hrest⟩ := Action.execute_bind_ok hrun
  obtain ⟨hnew, hc⟩ := hf r t a u hrest
  exact ⟨Nat.le_trans (Action.evolves_of_execute hx hfirst).size_le hnew, hc⟩

/-- A run starts from a collection of its own. -/
theorem makesCollection_opened (items policy validators : Value) :
    MakesCollection (opened items policy validators) := by
  unfold opened Collection.construct
  refine makesCollection_bind (Action.steady_deepCopy _) fun copies => ?_
  refine makesCollection_bind (steady_policyOf policy) fun p => ?_
  refine makesCollection_bind (Collection.obeys_initialItems _) fun xs => ?_
  refine makesCollection_bind (Collection.obeys_copyValidators validators) fun v => ?_
  refine makesCollection_bind (Collection.obeys_newRegistry none) fun r => ?_
  refine makesCollection_bind (Policy.obeys_read _) fun q => ?_
  refine makesCollection_bind (Policy.obeys_newGenerator q) fun g => ?_
  refine makesCollection_bind (fun s => s.evolves_alloc _) fun list => ?_
  intro s a t hrun
  cases hrun
  exact ⟨Nat.le_refl _, _, s.store.cell?_alloc _⟩

/-- An answer to a log of operations, and the state in which it is given, when the operations are
replayed from a value on. -/
structure Answers (caller : Caller) (log : List Recorded) (v : Value) (s : State)
    (answer : Except Error Value × State) : Prop where
  /-- the operations are carried out up to the last one, or to one that fails, or to one that gives
  no collection -/
  reaches : ∃ done rest r u, log = done ++ rest ∧ Replayed caller v s done r u ∧
    (rest = [] ∨ done ≠ [] ∧ ∀ w, r = .ok w → u.store.collection? w = none)
  /-- the failure of one is the answer -/
  failing : ∀ done rest e u, log = done ++ rest → Replayed caller v s done (.error e) u →
    answer = (.error e, u)
  /-- behind one that gives no collection the next one is refused, and that is all -/
  terminal : ∀ done last after rest w u, log = done ++ last :: after :: rest →
    Replayed caller v s (done ++ [last]) (.ok w) u → u.store.collection? w = none →
    answer = (.error (.refusal (.afterTerminal after.name last.name)), u)
  /-- one for which the collection that has been come to has nothing to be called is refused -/
  unsupported : ∀ done op rest w u, log = done ++ op :: rest → Replayed caller v s done (.ok w) u →
    u.store.Lacks w (methodName op.name) →
    answer = (.error (.refusal (.unknownOperation op.name)), u)
  /-- one whose extension is looked for without end fails -/
  endless : ∀ done op rest w u, log = done ++ op :: rest → Replayed caller v s done (.ok w) u →
    u.store.SeeksOn w (methodName op.name) → answer = (.error (.fault .recursion), u)
  /-- what the last one gives is rebuilt as a plain value -/
  finished : ∀ w u, Replayed caller v s log (.ok w) u → answer = (Action.plain w).execute u
  /-- that succeeds where nesting ends -/
  given : ∀ w u, Replayed caller v s log (.ok w) u → u.store.Closed → u.store.Knows w →
    u.store.NestingEnds w → ∃ x t, answer = (.ok x, t)
  /-- in what is given there is no collection at any depth, no tuple and no read-only mapping -/
  plain : ∀ x t, answer = (.ok x, t) → ∀ y c, t.store.LiesIn x y → t.store.view y = some c →
    c.isWrapper = false

/-- A replay whose result is rebuilt answers a log that is shown. -/
theorem answers_replay {caller : Caller} (hcaller : Action.SteadyCaller caller)
    {log : List Recorded} {ops : List Value} {v : Value} {s : State}
    (hlog : List.Forall₂ (Recorded.IsShownBy s) log ops) :
    Answers caller log v s ((replay caller v ops >>= Action.plain).execute s) := by
  have hfinished : ∀ w u, Replayed caller v s log (.ok w) u →
      (replay caller v ops >>= Action.plain).execute s = (Action.plain w).execute u :=
    fun w u h => Action.execute_bind_of_ok (execute_replay_of_all hcaller h hlog)
  refine
    { reaches := exists_replayed log v s
      failing := fun done rest e u hsplit h => Action.execute_bind_of_error
        (execute_replay_of_failing hcaller h (hsplit ▸ hlog))
      terminal := fun done last after rest w u hsplit h hterminal => Action.execute_bind_of_error
        (execute_replay_of_refused hcaller h hterminal (hsplit ▸ hlog))
      unsupported := fun done op rest w u hsplit h hlacks => Action.execute_bind_of_error
        (execute_replay_of_lacks hcaller h hlacks (hsplit ▸ hlog))
      endless := fun done op rest w u hsplit h hseeks => Action.execute_bind_of_error
        (execute_replay_of_seeksOn hcaller h hseeks (hsplit ▸ hlog))
      finished := hfinished
      given := ?_
      plain := ?_ }
  · intro w u h hclosed hw hends
    obtain ⟨x, t, hplain⟩ := Action.plain_ok hclosed hw hends
    exact ⟨x, t, (hfinished w u h).trans hplain⟩
  · intro x t hrun y c
    obtain ⟨w, u, -, hplain⟩ := Action.execute_bind_ok hrun
    exact (Action.plain_unwraps hplain).2 y c

/-- An executor over a list fails as making its collection does, over a copy of the list; otherwise
it answers the log of operations by replaying it on that collection. -/
theorem call_replays {caller : Caller} (hcaller : Action.SteadyCaller caller) {s : State}
    {x y o : Address} {policy context : Value} {b : Builder} {xs ops : List Value}
    {log : List Recorded} (hitems : s.store.cell? y = some (.list xs))
    (hcontext : IsContext b context s) (hshown : b.shown = .ref o)
    (hops : s.store.cell? o = some (.tuple ops))
    (hlog : List.Forall₂ (Recorded.IsShownBy s) log ops) :
    (∀ e t, (opened (.ref y) policy b.validators).execute s = (.error e, t) →
      (call caller x (.memory (.ref y) policy) [context]).execute s = (.error e, t)) ∧
    ∀ a t, (opened (.ref y) policy b.validators).execute s = (.ok a, t) →
      (s.store.size ≤ a.index ∧ ∃ c, t.store.cell? a = some (.collection c)) ∧
      Answers caller log (.ref a) t
        ((call caller x (.memory (.ref y) policy) [context]).execute s) := by
  have hrun : (call caller x (.memory (.ref y) policy) [context]).execute s = _ :=
    execute_runOver hcaller hitems hcontext hshown hops
  rw [hrun]
  refine ⟨fun e t hfails => Action.execute_bind_of_error hfails, fun a t hopened => ?_⟩
  refine ⟨makesCollection_opened _ _ _ s a t hopened, ?_⟩
  rw [Action.execute_bind_of_ok hopened]
  have hst := Action.evolves_of_execute (steady_opened _ _ _) hopened
  exact answers_replay hcaller (hlog.imp fun _ _ h => h.evolve hst)

/-- A list of one number, and the tuples that show a log of operations. -/
def logged (log : List Recorded) (more : List Cell) : State where
  store := { cells := State.initial.store.cells ++ #[
      .list [.int 7],
      .tuple ((List.range log.length).map fun i => .ref ⟨6 + i⟩),
      .record .metadata [],
      .record .context
        [("operations", .ref ⟨3⟩), ("validators", .null), ("metadata", .ref ⟨4⟩)]] ++
    (log.map fun op => Cell.tuple (.str op.name :: op.args)).toArray ++ more.toArray }

/-- What the executor is asked for then. -/
def loggedQuery : Builder where
  executor := .null
  validators := .null
  operations := []
  shown := .ref ⟨3⟩

/-- The state in which the executor has made its collection. -/
def opening (s : State) : State := ((opened (.ref ⟨2⟩) .null .null).execute s).2

/-- The state in which an operation has been carried out. -/
def carried (op : Recorded) (v : Value) (s : State) : State := ((op.carryOut apply v).execute s).2

/-- A count of the first item of the first part. -/
def countOfFirst : State :=
  logged [⟨"chunk", [.int 1]⟩, ⟨"first", []⟩, ⟨"first", []⟩, ⟨"count", []⟩] []

/-- The parts of the list have been made. -/
def inParts : State := carried ⟨"chunk", [.int 1]⟩ (.ref ⟨15⟩) (opening countOfFirst)

/-- The first part has been found. -/
def inFirstPart : State := carried ⟨"first", []⟩ (.ref ⟨19⟩) inParts

/-- The first part is gone on from, which is a collection, and its first item is not. -/
theorem call_countOfFirst :
    ((call apply ⟨10⟩ (.memory (.ref ⟨2⟩) .null) [.ref ⟨5⟩]).execute countOfFirst).1 =
      .error (.refusal (.afterTerminal "count" "first")) := by
  have hcontext : IsContext loggedQuery (.ref ⟨5⟩) countOfFirst :=
    ⟨⟨5⟩, .ref ⟨4⟩, rfl, rfl, fun _ => rfl⟩
  have hlog : List.Forall₂ (Recorded.IsShownBy countOfFirst)
      [⟨"chunk", [.int 1]⟩, ⟨"first", []⟩, ⟨"first", []⟩, ⟨"count", []⟩]
      [.ref ⟨6⟩, .ref ⟨7⟩, .ref ⟨8⟩, .ref ⟨9⟩] :=
    .cons ⟨⟨6⟩, rfl, rfl⟩ (.cons ⟨⟨7⟩, rfl, rfl⟩ (.cons ⟨⟨8⟩, rfl, rfl⟩
      (.cons ⟨⟨9⟩, rfl, rfl⟩ .nil)))
  have hopened : (opened (.ref ⟨2⟩) .null loggedQuery.validators).execute countOfFirst =
      (.ok ⟨15⟩, opening countOfFirst) := rfl
  have hparts : (Recorded.carryOut ⟨"chunk", [.int 1]⟩ apply (.ref ⟨15⟩)).execute
      (opening countOfFirst) = (.ok (.ref ⟨19⟩), inParts) := rfl
  have hpart : (Recorded.carryOut ⟨"first", []⟩ apply (.ref ⟨19⟩)).execute inParts =
      (.ok (.ref ⟨17⟩), inFirstPart) := rfl
  have hitem : (Recorded.carryOut ⟨"first", []⟩ apply (.ref ⟨17⟩)).execute inFirstPart =
      (.ok (.int 7), carried ⟨"first", []⟩ (.ref ⟨17⟩) inFirstPart) := rfl
  have hreplayed : Replayed apply (.ref ⟨15⟩) (opening countOfFirst)
      [⟨"chunk", [.int 1]⟩, ⟨"first", []⟩, ⟨"first", []⟩] (.ok (.int 7))
      (carried ⟨"first", []⟩ (.ref ⟨17⟩) inFirstPart) :=
    .next hparts rfl (.next hpart rfl (.last hitem))
  have hanswers := ((@call_replays apply steady_apply _ ⟨10⟩ _ _ .null _ _ _ _ _ rfl hcontext rfl
    rfl hlog).2 ⟨15⟩ _ hopened).2
  rw [hanswers.terminal [⟨"chunk", [.int 1]⟩, ⟨"first", []⟩] ⟨"first", []⟩ ⟨"count", []⟩ [] _ _ rfl
    hreplayed rfl]

/-- A function is set on the parts of the list as their `foo`, and called on the first one. -/
def fooOfFirst : State :=
  logged [⟨"chunk", [.int 1]⟩, ⟨"update", [.ref ⟨10⟩]⟩, ⟨"first", []⟩, ⟨"foo", [.str "abc"]⟩]
    [.dict [(.str "foo", .builtin .len)]]

/-- The parts of the list have been made. -/
def inPlainParts : State := carried ⟨"chunk", [.int 1]⟩ (.ref ⟨16⟩) (opening fooOfFirst)

/-- The function has been set on them. -/
def inPatchedParts : State := carried ⟨"update", [.ref ⟨10⟩]⟩ (.ref ⟨20⟩) inPlainParts

/-- The first part has been found. -/
def inPatchedPart : State := carried ⟨"first", []⟩ (.ref ⟨20⟩) inPatchedParts

/-- A name is not refused that is none of a collection's own and under which no extension is found,
when a function has been set on the collection under it: the function is called. -/
theorem call_fooOfFirst :
    (opened (.ref ⟨2⟩) .null .null).execute fooOfFirst = (.ok ⟨16⟩, opening fooOfFirst) ∧
    Replayed apply (.ref ⟨16⟩) (opening fooOfFirst)
      [⟨"chunk", [.int 1]⟩, ⟨"update", [.ref ⟨10⟩]⟩, ⟨"first", []⟩] (.ok (.ref ⟨18⟩))
      inPatchedPart ∧
    (∃ c, inPatchedPart.store.cell? ⟨18⟩ = some (.collection c) ∧
      Registry.lookup inPatchedPart.store c.registry "foo" = none) ∧
    ¬Collection.IsOwnName "foo" ∧
    ((call apply ⟨11⟩ (.memory (.ref ⟨2⟩) .null) [.ref ⟨5⟩]).execute fooOfFirst).1 =
      .ok (.int 3) := by
  have hopened : (opened (.ref ⟨2⟩) .null loggedQuery.validators).execute fooOfFirst =
      (.ok ⟨16⟩, opening fooOfFirst) := rfl
  have hparts : (Recorded.carryOut ⟨"chunk", [.int 1]⟩ apply (.ref ⟨16⟩)).execute
      (opening fooOfFirst) = (.ok (.ref ⟨20⟩), inPlainParts) := rfl
  have hpatched : (Recorded.carryOut ⟨"update", [.ref ⟨10⟩]⟩ apply (.ref ⟨20⟩)).execute
      inPlainParts = (.ok (.ref ⟨20⟩), inPatchedParts) := rfl
  have hpart : (Recorded.carryOut ⟨"first", []⟩ apply (.ref ⟨20⟩)).execute inPatchedParts =
      (.ok (.ref ⟨18⟩), inPatchedPart) := rfl
  have hcalled : (Recorded.carryOut ⟨"foo", [.str "abc"]⟩ apply (.ref ⟨18⟩)).execute
      inPatchedPart = (.ok (.int 3), inPatchedPart) := rfl
  refine ⟨hopened, .next hparts rfl (.next hpatched rfl (.last hpart)), ⟨_, rfl, rfl⟩,
    by decide +kernel, ?_⟩
  have hcontext : IsContext loggedQuery (.ref ⟨5⟩) fooOfFirst :=
    ⟨⟨5⟩, .ref ⟨4⟩, rfl, rfl, fun _ => rfl⟩
  have hshown : List.Forall₂ (Recorded.IsShownBy (opening fooOfFirst))
      [⟨"chunk", [.int 1]⟩, ⟨"update", [.ref ⟨10⟩]⟩, ⟨"first", []⟩, ⟨"foo", [.str "abc"]⟩]
      [.ref ⟨6⟩, .ref ⟨7⟩, .ref ⟨8⟩, .ref ⟨9⟩] :=
    .cons ⟨⟨6⟩, rfl, rfl⟩ (.cons ⟨⟨7⟩, rfl, rfl⟩ (.cons ⟨⟨8⟩, rfl, rfl⟩
      (.cons ⟨⟨9⟩, rfl, rfl⟩ .nil)))
  have hreplayed := execute_replay_of_all steady_apply
    (.next hparts rfl (.next hpatched rfl (.next hpart rfl (.last hcalled)))) hshown
  have hops : fooOfFirst.store.cell? ⟨3⟩ =
      some (.tuple [.ref ⟨6⟩, .ref ⟨7⟩, .ref ⟨8⟩, .ref ⟨9⟩]) := rfl
  have hrun : (call apply ⟨11⟩ (.memory (.ref ⟨2⟩) .null) [.ref ⟨5⟩]).execute fooOfFirst = _ :=
    execute_runOver steady_apply rfl hcontext rfl hops
  rw [hrun, Action.execute_bind_of_ok hopened, Action.execute_bind_of_ok hreplayed]
  rfl

end Executor

end Recordset
