import Mathlib.Data.List.Forall2
import Mathlib.Tactic.ByContra
import Recordset.Proofs.Deferred.Recording
import Recordset.Proofs.Extension.Lookup
import Recordset.Proofs.Steady.Session
set_option autoImplicit false

/-!
# Replaying operations and making calls

A replay of recorded operations over a list does what the same calls do when they are made one after
another on a collection over a copy of the list, in the same state.  The one call for which the
replay makes another one is that for pages of some size that does not say which page: it is replayed
as one for no page at all, which fails for a type.

A replay is a call deeper than the calls themselves, so it is compared with calls that may nest one
level less.  Calls are compared as long as each is made on a collection that shows its own method
under the name (`Link.IsOpen`), since a replay refuses to go on from anything else.

`Executor.agrees_runOver_iff` is the main statement.
-/

namespace Recordset

/-- A failure for a type. -/
def FailsForType {α : Type} (r : Except Error α) : Prop := ∃ e, r = .error e ∧ e.isType = true

instance {α : Type} (r : Except Error α) : Decidable (FailsForType r) :=
  inferInstanceAs (Decidable (∃ _, _))

/-- A call in a chain of calls: a method and the arguments that the caller gives. -/
structure Link where
  method : Method
  args : Arguments := {}

namespace Link

/-- Makes the call on a value. -/
def call (l : Link) (caller : Caller) (v : Value) : Action Value :=
  invoke caller v l.method.name l.args

/-- Makes calls one after another, each on what the one before gave. -/
def chained (caller : Caller) (v : Value) : List Link → Action Value
  | [] => pure v
  | l :: ls => do chained caller (← l.call caller v) ls

/-- Something holds of each call of a chain, on the value and in the state in which it is made. -/
def Throughout (caller : Caller) (P : Link → Value → State → Prop) :
    Value → List Link → State → Prop
  | _, [], _ => True
  | v, l :: ls, s =>
    P l v s ∧ ∀ w t, (l.call caller v).execute s = (.ok w, t) → Throughout caller P w ls t

instance decidableThroughout {caller : Caller} {P : Link → Value → State → Prop}
    [∀ l v s, Decidable (P l v s)] (ls : List Link) :
    ∀ v s, Decidable (Throughout caller P v ls s) :=
  match ls with
  | [] => fun _ _ => .isTrue trivial
  | l :: ls => fun v s =>
    have : ∀ w t, Decidable (Throughout caller P w ls t) := decidableThroughout ls
    inferInstanceAs (Decidable (P l v s ∧
      ∀ w t, (l.call caller v).execute s = (.ok w, t) → Throughout caller P w ls t))

/-- The call is made on a collection, and no attribute that has been set on it hides the method. -/
def IsOpen (l : Link) (v : Value) (s : State) : Prop :=
  s.store.mark? v l.method.name = none ∧
    (s.store.collection? v).any fun c => (c.fields.lookup l.method.name).isNone

instance (l : Link) (v : Value) (s : State) : Decidable (l.IsOpen v s) :=
  inferInstanceAs (Decidable (_ ∧ _))

theorem IsOpen.exists_collection {l : Link} {v : Value} {s : State} (h : l.IsOpen v s) :
    ∃ a c, v = .ref a ∧ s.store.cell? a = some (.collection c) ∧
      s.store.mark? v l.method.name = none ∧ c.fields.lookup l.method.name = none := by
  obtain ⟨hmark, hcollection⟩ := h
  obtain ⟨c, hc, hfield⟩ := (Option.any_eq_true _ _).mp hcollection
  cases v with
  | ref a =>
    have hview : s.store.view (.ref a) = s.store.cell? a := rfl
    unfold Store.collection? at hc
    rw [hview] at hc
    split at hc
    · next d hd =>
      cases hc
      exact ⟨a, d, rfl, hd, hmark, by simpa using hfield⟩
    · cases hc
  | _ => cases hc

/-- A builder records the method, and no argument is left out by passing the marker for it. -/
def IsRecordable (l : Link) : Prop :=
  l.method ∈ Builder.methods ∧ Builder.IsMarkerFree l.args

instance (l : Link) : Decidable l.IsRecordable := inferInstanceAs (Decidable (_ ∧ _ ∧ _))

/-- If the call leaves out the page alone, it fails for a type anyway. -/
def IsHarmless (caller : Caller) (l : Link) (v : Value) (s : State) : Prop :=
  Builder.SkipsPage l.method l.args → FailsForType ((l.call caller v).execute s).1

instance (caller : Caller) (l : Link) (v : Value) (s : State) :
    Decidable (IsHarmless caller l v s) := inferInstanceAs (Decidable (_ → _))

end Link

namespace Builder

/-- A value is the operation that is recorded of a call. -/
def IsRecord (s : State) (l : Link) (v : Value) : Prop :=
  ∃ a vs, v = .ref a ∧ (signature l.method).bind l.args = .ok vs ∧
    s.store.cell? a = some (.tuple (.str (recordedName l.method) :: trim vs))

theorem IsRecord.evolve {s t : State} {l : Link} {v : Value} (h : IsRecord s l v)
    (hst : s.Evolves t) : IsRecord t l v := by
  obtain ⟨a, vs, rfl, hbind, hcell⟩ := h
  exact ⟨a, vs, rfl, hbind, hst.tuple hcell⟩

end Builder

/-! ## One call -/

namespace Action

/-- What a collection shows under the name of a method, unless an attribute hides it. -/
theorem execute_attribute?_method {a : Address} {c : Collection} {m : Method} {s : State}
    (hcell : s.store.cell? a = some (.collection c)) (hmark : s.store.mark? (.ref a) m.name = none)
    (hfield : c.fields.lookup m.name = none) :
    (attribute? (.ref a) m.name).execute s =
      (.ok (some (.method s.serial a m.name)), { s with serial := s.serial + 1 }) := by
  have hattribute : Attribute.ofName? m.name = none := by cases m <;> decide
  have hshared : ¬ m.name = Attribute.name .sharedExtensions := by cases m <;> decide
  have hmethod : (Method.ofName? m.name).isSome = true := by cases m <;> decide
  rw [Collection.execute_attribute? hcell hmark]
  unfold collectionAttribute
  rw [hattribute, hfield]
  simp only
  rw [if_neg hshared, if_pos hmethod]
  rfl

end Action

section

variable {a : Address} {c : Collection} {m : Method} {s : State}

/-- Calling a method of a collection past all its attributes. -/
theorem execute_onCell (caller : Caller) (args : Arguments) (m : Method)
    (hcell : s.store.cell? a = some (.collection c)) :
    (Invoke.onCell caller a m.name args).execute s =
      (Collection.invoke caller a m args).execute s := by
  have hmethod : Method.ofName? m.name = some m := by cases m <;> rfl
  unfold Invoke.onCell
  rw [Action.execute_bind_of_ok (Action.execute_cell hcell), hmethod]

/-- A recorded operation on a collection is carried out by its method. -/
theorem execute_perform (depth : Nat) (args : List Value)
    (hcell : s.store.cell? a = some (.collection c)) (hmark : s.store.mark? (.ref a) m.name = none)
    (hfield : c.fields.lookup m.name = none) :
    (Executor.perform (applyAt (depth + 1)) (.ref a) (.str (Builder.recordedName m))
        args).execute s =
      (Collection.invoke (applyAt depth) a m ⟨args, []⟩).execute
        { s with serial := s.serial + 1 } := by
  have hname : Executor.methodName (Builder.recordedName m) = m.name := by cases m <;> rfl
  unfold Executor.perform
  simp only [hname]
  rw [Action.execute_bind_of_ok (Action.execute_attribute?_method hcell hmark hfield)]
  exact execute_onCell (applyAt depth) ⟨args, []⟩ m hcell

/-- A call on a collection is carried out by its method. -/
theorem Link.execute_call (caller : Caller) (args : Arguments)
    (hcell : s.store.cell? a = some (.collection c)) (hmark : s.store.mark? (.ref a) m.name = none)
    (hfield : c.fields.lookup m.name = none) :
    (Link.call ⟨m, args⟩ caller (.ref a)).execute s =
      (Collection.invoke caller a m args).execute { s with serial := s.serial + 1 } := by
  have hrequest : Request.ofName? m.name = none := by cases m <;> decide
  unfold Link.call invoke
  simp only [hrequest]
  have hattribute : (Invoke.onValue caller (.ref a) m.name args).execute s =
      (Invoke.onAttribute caller (.ref a) m.name args).execute s := by
    unfold Invoke.onValue
    rw [Action.execute_get_bind]
    cases m <;> rfl
  rw [hattribute]
  unfold Invoke.onAttribute
  rw [Action.execute_bind_of_ok (Action.execute_attribute?_method hcell hmark hfield)]
  exact execute_onCell caller args m hcell

end

theorem steady_call {caller : Caller} (hcaller : Action.SteadyCaller caller) (l : Link)
    (v : Value) : Action.Steady (l.call caller v) := steady_invoke hcaller v l.method.name l.args

/-! ## A call and its record -/

/-- Pages can not be asked for without a page. -/
theorem Collection.execute_paginate_null {a : Address} {c : Collection} {s : State}
    (hcell : s.store.cell? a = some (.collection c)) (size : Value) :
    FailsForType ((Collection.paginate a .null size).execute s).1 := by
  have hread : (Collection.read a).execute s = (.ok c, s) := by
    unfold Collection.read
    rw [Action.execute_bind_of_ok (Action.execute_cell hcell)]
    rfl
  have hbelow : ∀ (v : Value) (f : Value → Bool → Action Value),
      FailsForType
        ((pure v >>= fun w => Collection.belowOne .null >>= f w : Action Value).execute s).1 :=
    fun v f => ⟨_, rfl, rfl⟩
  unfold Collection.paginate
  rw [Action.execute_bind_of_ok hread]
  cases size with
  | null =>
    cases hpolicy : s.store.cell? c.policy with
    | none =>
      have hcell : (Action.cell c.policy).execute s = (.error (.fault .type), s) := by
        unfold Action.cell
        rw [Action.execute_get_bind, hpolicy]
        rfl
      dsimp only
      rw [Action.execute_bind_of_error hcell]
      exact ⟨_, rfl, rfl⟩
    | some d =>
      dsimp only
      rw [Action.execute_bind_of_ok (Action.execute_cell hpolicy)]
      cases d <;> exact hbelow _ _
  | _ => exact hbelow _ _

/-- Every result of an action has a property, in the state that the action leaves. -/
def Action.Gives {α : Type} (P : α → State → Prop) (x : Action α) : Prop :=
  ∀ s a t, x.execute s = (.ok a, t) → P a t

theorem Action.gives_bind {α β : Type} {P : β → State → Prop} {x : Action α} {f : α → Action β}
    (h : ∀ a, Gives P (f a)) : Gives P (x >>= f) := by
  intro s b u hrun
  obtain ⟨a, t, -, hrest⟩ := execute_bind_ok hrun
  exact h a t b u hrest

/-- A page is told as a mapping. -/
theorem Collection.gives_paginate (a : Address) (page size : Value) :
    Action.Gives (fun w t => ∃ es, t.store.view w = some (.dict es))
      (Collection.paginate a page size) := by
  have hmake : ∀ es, Action.Gives (fun w t => ∃ es, t.store.view w = some (.dict es))
      (Action.make (.dict es)) := by
    intro es s w t hrun
    cases hrun
    exact ⟨es, Store.cell?_alloc s.store _⟩
  have hrefuse : ∀ r, Action.Gives (fun w t => ∃ es, t.store.view w = some (.dict es))
      (Action.refuse r : Action Value) := by
    intro r s w t hrun
    cases hrun
  unfold Collection.paginate
  refine Action.gives_bind fun c => ?_
  repeat' first
    | with_reducible exact hmake _
    | with_reducible exact hrefuse _
    | with_reducible refine Action.gives_bind fun _ => ?_
    | split
    | dsimp only

namespace Executor

/-- The parts of a recorded operation. -/
theorem execute_parts {s : State} {a : Address} {name : Value} {args : List Value}
    (hcell : s.store.cell? a = some (.tuple (name :: args))) :
    (parts (.ref a)).execute s = (.ok (name, args), s) := by
  have hview : s.store.view (.ref a) = some (.tuple (name :: args)) := hcell
  have hitem : s.store.item (.ref a) (.int 0) = .ok name := by
    simp [Store.item, hview, itemAt, Value.index?, Slice.place?]
  have helements : s.store.elements (.ref a) = .ok (name :: args) := by
    simp [Store.elements, hview]
  unfold parts
  rw [Action.execute_get_bind]
  simp only [hitem, hview, helements]
  rfl

/-- A replay makes the call that has been recorded, unless it leaves out the page alone. -/
theorem execute_perform_of_not_skipsPage (depth : Nat) {l : Link} {v : Value} {s : State}
    {vs : List Value} (hopen : l.IsOpen v s) (hrecordable : l.IsRecordable)
    (hbind : (Builder.signature l.method).bind l.args = .ok vs)
    (hskips : ¬ Builder.SkipsPage l.method l.args) :
    (perform (applyAt (depth + 1)) v (.str (Builder.recordedName l.method))
        (Builder.trim vs)).execute s = (l.call (applyAt depth) v).execute s := by
  obtain ⟨a, c, rfl, hcell, hmark, hfield⟩ := hopen.exists_collection
  have hsame := (Builder.bind_trim_iff hrecordable.1 hrecordable.2 hbind).mpr hskips
  rw [execute_perform depth _ hcell hmark hfield,
    Link.execute_call (applyAt depth) l.args hcell hmark hfield]
  unfold Collection.invoke Method.call
  rw [hsame]

/-- A call that leaves out the page alone fails in a replay. -/
theorem failsForType_perform (depth : Nat) {l : Link} {v : Value} {s : State} {vs : List Value}
    (hopen : l.IsOpen v s) (hrecordable : l.IsRecordable)
    (hbind : (Builder.signature l.method).bind l.args = .ok vs)
    (hskips : Builder.SkipsPage l.method l.args) :
    FailsForType ((perform (applyAt (depth + 1)) v (.str (Builder.recordedName l.method))
      (Builder.trim vs)).execute s).1 := by
  obtain ⟨a, c, rfl, hcell, hmark, hfield⟩ := hopen.exists_collection
  obtain ⟨hmethod, size, hsize, hgiven⟩ := hskips.exists_size
  rw [execute_perform depth _ hcell hmark hfield]
  rw [hmethod] at hbind hsize ⊢
  rw [hsize] at hbind
  cases hbind
  obtain ⟨hrecorded, -⟩ := Builder.bind_of_skipsPage hrecordable.2 hsize hgiven
  unfold Collection.invoke Method.call
  rw [hrecorded]
  have hcell' : ({ s with serial := s.serial + 1 } : State).store.cell? a = some (.collection c) :=
    hcell
  exact Collection.execute_paginate_null hcell' size

/-! ## Many calls -/

/-- A replay goes on as long as there are collections to go on from. -/
theorem execute_replay_cons {caller : Caller} {v op : Value} {ops : List Value} {l : Link}
    {s : State} {a : Address} {vs : List Value} (hop : op = .ref a)
    (hcell : s.store.cell? a = some (.tuple (.str (Builder.recordedName l.method) :: vs)))
    (hnext : ∀ w t, (perform caller v (.str (Builder.recordedName l.method)) vs).execute s =
      (.ok w, t) → ops = [] ∨ (t.store.collection? w).isSome) :
    (replay caller v (op :: ops)).execute s =
      ((perform caller v (.str (Builder.recordedName l.method)) vs) >>= fun w =>
        replay caller w ops).execute s := by
  subst hop
  rw [replay, Action.execute_bind_of_ok (execute_parts hcell)]
  dsimp only
  rw [Action.execute_bind, Action.execute_bind]
  cases hrun : (perform caller v (.str (Builder.recordedName l.method)) vs).execute s with
  | mk r t =>
    cases r with
    | error e => rfl
    | ok w =>
      dsimp only
      rw [Action.execute_get_bind]
      cases ops with
      | nil => rfl
      | cons next rest =>
        obtain ⟨c, hc⟩ := Option.isSome_iff_exists.mp
          ((hnext w t hrun).resolve_left (List.cons_ne_nil next rest))
        rw [hc]

/-- A replay fails for a type when its first call does. -/
theorem failsForType_bind {x : Action Value} {f : Value → Action Value} {s : State}
    (h : FailsForType (x.execute s).1) : FailsForType ((x >>= f).execute s).1 := by
  obtain ⟨e, he, htype⟩ := h
  rw [Action.execute_bind]
  cases hrun : x.execute s with
  | mk r t =>
    rw [hrun] at he
    subst he
    exact ⟨e, rfl, htype⟩

section

variable {depth : Nat} {l : Link} {ls : List Link} {op v : Value} {ops : List Value} {s : State}

/-- The next operation is replayed on a collection. -/
theorem next_of_throughout {caller : Caller} {w : Value} {t : State}
    (hrecords : List.Forall₂ (Builder.IsRecord s) ls ops)
    (hopen : Link.Throughout caller Link.IsOpen w ls t) :
    ops = [] ∨ (t.store.collection? w).isSome := by
  cases hrecords with
  | nil => exact .inl rfl
  | cons hrecord hrecords =>
    obtain ⟨a, c, rfl, hcell, -⟩ := hopen.1.exists_collection
    have hview : t.store.view (.ref a) = some (.collection c) := hcell
    exact .inr (by simp [Store.collection?, hview])

/-- A replay makes the first call and replays the rest, unless the call leaves out the page
alone. -/
theorem execute_replay_of_not_skipsPage (hrecord : Builder.IsRecord s l op)
    (hrecords : List.Forall₂ (Builder.IsRecord s) ls ops) (hrecordable : l.IsRecordable)
    (hopen : Link.Throughout (applyAt depth) Link.IsOpen v (l :: ls) s)
    (hskips : ¬ Builder.SkipsPage l.method l.args) :
    (replay (applyAt (depth + 1)) v (op :: ops)).execute s =
      (l.call (applyAt depth) v >>= fun w => replay (applyAt (depth + 1)) w ops).execute s := by
  obtain ⟨a, vs, hop, hbind, hcell⟩ := hrecord
  have hsame := execute_perform_of_not_skipsPage depth hopen.1 hrecordable hbind hskips
  rw [execute_replay_cons hop hcell fun w t hrun =>
    next_of_throughout hrecords (hopen.2 w t (hsame ▸ hrun))]
  rw [Action.execute_bind, Action.execute_bind, hsame]

/-- A replay fails at a call that leaves out the page alone. -/
theorem failsForType_replay (hrecord : Builder.IsRecord s l op) (hrecordable : l.IsRecordable)
    (hopen : l.IsOpen v s) (hskips : Builder.SkipsPage l.method l.args) :
    FailsForType ((replay (applyAt (depth + 1)) v (op :: ops)).execute s).1 := by
  obtain ⟨a, vs, hop, hbind, hcell⟩ := hrecord
  have hfails := failsForType_perform depth hopen hrecordable hbind hskips
  rw [execute_replay_cons hop hcell fun w t hrun => ?_]
  · exact failsForType_bind hfails
  · obtain ⟨e, he, -⟩ := hfails
    rw [hrun] at he
    cases he

end

/-- Replaying operations is making the calls of which they are the records, as long as no call
leaves out the page alone, or the call fails for a type anyway. -/
theorem execute_replay {depth : Nat} {ls : List Link} {ops : List Value} {v : Value} {s : State}
    (hrecords : List.Forall₂ (Builder.IsRecord s) ls ops)
    (hrecordable : ∀ l ∈ ls, l.IsRecordable)
    (hopen : Link.Throughout (applyAt depth) Link.IsOpen v ls s)
    (hharmless : Link.Throughout (applyAt depth) (Link.IsHarmless (applyAt depth)) v ls s) :
    (replay (applyAt (depth + 1)) v ops).execute s = (Link.chained (applyAt depth) v ls).execute s ∨
      (FailsForType ((replay (applyAt (depth + 1)) v ops).execute s).1 ∧
        FailsForType ((Link.chained (applyAt depth) v ls).execute s).1) := by
  induction ls generalizing ops v s with
  | nil =>
    cases hrecords
    exact .inl rfl
  | cons l ls ih =>
    obtain _ | ⟨hrecord, hrecords⟩ := hrecords
    have hl : l.IsRecordable := hrecordable l List.mem_cons_self
    by_cases hskips : Builder.SkipsPage l.method l.args
    · exact .inr ⟨failsForType_replay hrecord hl hopen.1 hskips,
        failsForType_bind (hharmless.1 hskips)⟩
    · rw [execute_replay_of_not_skipsPage hrecord hrecords hl hopen hskips, Link.chained,
        Action.execute_bind, Action.execute_bind]
      cases hrun : (l.call (applyAt depth) v).execute s with
      | mk r t =>
        cases r with
        | error e => exact .inl rfl
        | ok w =>
          have hevolves : s.Evolves t :=
            Action.evolves_of_execute (steady_call (steady_applyAt depth) l v) hrun
          exact ih (hrecords.imp fun _ _ h => h.evolve hevolves)
            (fun k hk => hrecordable k (List.mem_cons_of_mem l hk)) (hopen.2 w t hrun)
            (hharmless.2 w t hrun)

/-- After a call that leaves out the page alone, nothing can be called on what it gives. -/
theorem eq_nil_of_skipsPage {caller : Caller} {l : Link} {ls : List Link} {v w : Value}
    {s t : State} (hrecordable : l.IsRecordable)
    (hopen : Link.Throughout caller Link.IsOpen v (l :: ls) s)
    (hskips : Builder.SkipsPage l.method l.args)
    (hrun : (l.call caller v).execute s = (.ok w, t)) : ls = [] := by
  cases ls with
  | nil => rfl
  | cons k ls =>
    obtain ⟨a, c, rfl, hcell, hmark, hfield⟩ := hopen.1.exists_collection
    obtain ⟨b, d, rfl, hcollection, -⟩ := (hopen.2 w t hrun).1.exists_collection
    obtain ⟨method, args⟩ := l
    obtain ⟨rfl, size, hsize, hgiven⟩ := hskips.exists_size
    obtain ⟨-, hdirect⟩ := Builder.bind_of_skipsPage hrecordable.2 hsize hgiven
    rw [Link.execute_call caller args hcell hmark hfield] at hrun
    unfold Collection.invoke Method.call at hrun
    rw [hdirect] at hrun
    obtain ⟨es, hdict⟩ := Collection.gives_paginate a (.int 1) size _ _ t hrun
    have hview : t.store.view (.ref b) = some (.collection d) := hcollection
    rw [hview] at hdict
    cases hdict

/-- A replay fails for a type at a call that leaves out the page alone, where making the call does
not. -/
theorem failsForType_replay_of_not_isHarmless {depth : Nat} {ls : List Link} {ops : List Value}
    {v : Value} {s : State} (hrecords : List.Forall₂ (Builder.IsRecord s) ls ops)
    (hrecordable : ∀ l ∈ ls, l.IsRecordable)
    (hopen : Link.Throughout (applyAt depth) Link.IsOpen v ls s)
    (hharmful : ¬ Link.Throughout (applyAt depth) (Link.IsHarmless (applyAt depth)) v ls s) :
    FailsForType ((replay (applyAt (depth + 1)) v ops).execute s).1 ∧
      ¬ FailsForType ((Link.chained (applyAt depth) v ls).execute s).1 := by
  induction ls generalizing ops v s with
  | nil => exact absurd trivial hharmful
  | cons l ls ih =>
    obtain _ | ⟨hrecord, hrecords⟩ := hrecords
    have hl : l.IsRecordable := hrecordable l List.mem_cons_self
    by_cases hskips : Builder.SkipsPage l.method l.args
    · refine ⟨failsForType_replay hrecord hl hopen.1 hskips, fun hfails => hharmful ?_⟩
      rw [Link.chained, Action.execute_bind] at hfails
      cases hrun : (l.call (applyAt depth) v).execute s with
      | mk r t =>
        rw [hrun] at hfails
        cases r with
        | error e =>
          refine ⟨fun _ => by rw [hrun]; exact hfails, fun w u hok => ?_⟩
          rw [hrun] at hok
          cases hok
        | ok w =>
          obtain rfl := eq_nil_of_skipsPage hl hopen hskips hrun
          obtain ⟨e, he, -⟩ := hfails
          cases he
    · rw [execute_replay_of_not_skipsPage hrecord hrecords hl hopen hskips, Link.chained,
        Action.execute_bind, Action.execute_bind]
      obtain ⟨w, t, hrun, hrest⟩ : ∃ w t, (l.call (applyAt depth) v).execute s = (.ok w, t) ∧
          ¬ Link.Throughout (applyAt depth) (Link.IsHarmless (applyAt depth)) w ls t := by
        by_contra hno
        refine hharmful ⟨fun h => absurd h hskips, fun w t hrun => ?_⟩
        by_contra hrest
        exact hno ⟨w, t, hrun, hrest⟩
      have hevolves : s.Evolves t :=
        Action.evolves_of_execute (steady_call (steady_applyAt depth) l v) hrun
      rw [hrun]
      exact ih (hrecords.imp fun _ _ h => h.evolve hevolves)
        (fun k hk => hrecordable k (List.mem_cons_of_mem l hk)) (hopen.2 w t hrun) hrest

/-! ## A whole run -/

/-- The collection over a copy of items that a run starts from. -/
def opened (items policy validators : Value) : Action Address := do
  let copies ← Action.deepCopy [items]
  Collection.construct (copies.headD .null) validators (← policyOf policy) none

/-- The calls of a chain made one after another on a collection over a copy of items. -/
def direct (caller : Caller) (items policy validators : Value) (ls : List Link) :
    Action Value := do
  let a ← opened items policy validators
  Action.plain (← Link.chained caller (.ref a) ls)

theorem steady_opened (items policy validators : Value) :
    Action.Steady (opened items policy validators) := by
  unfold opened
  grind

/-- What a context tells under a name. -/
theorem execute_attributeOf_record {s : State} {a : Address} {kind : RecordKind}
    {fields : List (String × Value)} {name : String} {v : Value}
    (hcell : s.store.cell? a = some (.record kind fields))
    (hmark : s.store.mark? (.ref a) name = none) (hfield : fields.lookup name = some v) :
    (Action.attributeOf (.ref a) name).execute s = (.ok v, s) := by
  have hown : (Action.ownAttribute (.ref a) name).execute s = (.ok (some v), s) := by
    unfold Action.ownAttribute
    have hnumber : (Value.ref a).number? = none := rfl
    simp only [hnumber, Action.execute_get_bind, hcell, hfield]
    rfl
  unfold Action.attributeOf Action.attribute?
  rw [Action.execute_bind, Action.execute_get_bind, hmark]
  dsimp only
  rw [hown]
  rfl

/-- A value is what the executor of a builder is told. -/
def IsContext (b : Builder) (context : Value) (s : State) : Prop :=
  ∃ a metadata, context = .ref a ∧
    s.store.cell? a = some (.record .context
      [("operations", b.shown), ("validators", b.validators), ("metadata", metadata)]) ∧
    ∀ name, s.store.mark? (.ref a) name = none

theorem IsContext.evolve {b : Builder} {context : Value} {s t : State}
    (h : IsContext b context s) (hst : s.Evolves t) : IsContext b context t := by
  obtain ⟨a, metadata, rfl, hcell, hmark⟩ := h
  exact ⟨a, metadata, rfl, hst.record hcell, fun name => by rw [hst.marks a _ _ hcell, hmark]⟩

theorem IsContext.execute_validators {b : Builder} {context : Value} {s : State}
    (h : IsContext b context s) :
    (Action.attributeOf context "validators").execute s = (.ok b.validators, s) := by
  obtain ⟨a, metadata, rfl, hcell, hmark⟩ := h
  exact execute_attributeOf_record hcell (hmark _) rfl

theorem IsContext.execute_operations {b : Builder} {context : Value} {s : State}
    (h : IsContext b context s) :
    (Action.attributeOf context "operations").execute s = (.ok b.shown, s) := by
  obtain ⟨a, metadata, rfl, hcell, hmark⟩ := h
  exact execute_attributeOf_record hcell (hmark _) rfl

/-- The elements of a tuple. -/
theorem execute_iterate_tuple {s : State} {a : Address} {vs : List Value}
    (hcell : s.store.cell? a = some (.tuple vs)) :
    (Action.iterate (.ref a)).execute s = (.ok vs, s) := by
  have hview : s.store.view (.ref a) = some (.tuple vs) := hcell
  have helements : s.store.elements (.ref a) = .ok vs := by
    simp [Store.elements, hview]
  have hlook : (Action.look (Store.elements · (.ref a))).execute s = (.ok vs, s) := by
    rw [Action.execute_look, helements]
  unfold Action.iterate
  rw [Action.execute_bind_of_ok hlook]
  dsimp only
  rw [Action.execute_bind_of_ok (Action.execute_cell hcell)]
  rfl

/-- A run replays the recorded operations on the collection that it starts from. -/
theorem execute_runOver {caller : Caller} {policy context : Value} {b : Builder} {s : State}
    {y o : Address} {xs ops : List Value} (hcaller : Action.SteadyCaller caller)
    (hitems : s.store.cell? y = some (.list xs)) (hcontext : IsContext b context s)
    (hshown : b.shown = .ref o) (hops : s.store.cell? o = some (.tuple ops)) :
    (runOver caller (.ref y) policy context).execute s = (do
      let a ← opened (.ref y) policy b.validators
      Action.plain (← replay caller (.ref a) ops)).execute s := by
  unfold runOver opened
  simp only [bind_assoc]
  refine Action.execute_bind_congr fun copies t hcopy => ?_
  have hst := Action.evolves_of_execute (Action.steady_deepCopy _) hcopy
  rw [Action.execute_bind_of_ok (hcontext.evolve hst).execute_validators]
  refine Action.execute_bind_congr fun p u hpolicy => ?_
  have hsu := hst.trans (Action.evolves_of_execute (steady_policyOf policy) hpolicy)
  refine Action.execute_bind_congr fun a w hconstruct => ?_
  have hsw := hsu.trans (Action.evolves_of_execute (Collection.steady_construct _ _ _ _) hconstruct)
  rw [Action.execute_bind_of_ok (hcontext.evolve hsw).execute_operations, hshown,
    Action.execute_bind_of_ok (execute_iterate_tuple (hsw.tuple hops))]
  refine Action.execute_bind_congr fun v z hreplay => ?_
  have hsz := hsw.trans (Action.evolves_of_execute (steady_replay hcaller _ _) hreplay)
  obtain ⟨ys, hys⟩ := hsz.list hitems
  have hview : z.store.view (.ref y) = some (.list ys) := hys
  have hlook : (Action.look (Store.length · (.ref y))).execute z = (.ok ys.length, z) := by
    rw [Action.execute_look]
    simp [Store.length, hview]
  rw [Action.execute_bind_of_ok hlook]

/-! ## Agreement of a run -/

/-- An action fails for too deep a nesting, if it fails. -/
def FailsForNesting {α : Type} (x : Action α) : Prop :=
  ∀ s e t, x.execute s = (.error e, t) → e = .fault .recursion

theorem failsForNesting_bind {α β : Type} {x : Action α} {f : α → Action β}
    (hx : FailsForNesting x) (hf : ∀ a, FailsForNesting (f a)) : FailsForNesting (x >>= f) := by
  intro s e u hrun
  rw [Action.execute_bind] at hrun
  cases hfirst : x.execute s with
  | mk r t =>
    rw [hfirst] at hrun
    cases r with
    | error e' =>
      cases hrun
      exact hx s e u hfirst
    | ok a => exact hf a t e u hrun

theorem failsForNesting_pure {α : Type} (a : α) : FailsForNesting (pure a) := by
  intro s e t hrun
  cases hrun

theorem failsForNesting_make (c : Cell) : FailsForNesting (Action.make c) := by
  intro s e t hrun
  cases hrun

theorem failsForNesting_plainAll {plain : Value → Action Value}
    (hplain : ∀ v, FailsForNesting (plain v)) (vs : List Value) :
    FailsForNesting (Action.plainAll plain vs) := by
  induction vs with
  | nil => exact failsForNesting_pure []
  | cons v vs ih =>
    unfold Action.plainAll
    exact failsForNesting_bind (hplain v) fun w =>
      failsForNesting_bind ih fun ws => failsForNesting_pure _

theorem failsForNesting_plainEntries {plain : Value → Action Value}
    (hplain : ∀ v, FailsForNesting (plain v)) (es : Entries) :
    FailsForNesting (Action.plainEntries plain es) := by
  rw [Action.plainEntries_eq]
  exact failsForNesting_bind (failsForNesting_plainAll hplain _) fun ws => failsForNesting_pure _

theorem failsForNesting_plainAt (fuel : Nat) : ∀ v, FailsForNesting (Action.plainAt fuel v) := by
  induction fuel with
  | zero =>
    intro v s e t hrun
    cases hrun
    rfl
  | succ fuel ih =>
    intro v s
    show ∀ e t, (Action.execute _ s) = (.error e, t) → _
    unfold Action.plainAt
    rw [Action.execute_get_bind]
    dsimp only
    split
    · exact failsForNesting_bind (failsForNesting_plainEntries ih _)
        (fun es => failsForNesting_make _) s
    · exact failsForNesting_bind (failsForNesting_plainAll ih _)
        (fun vs => failsForNesting_make _) s
    · exact failsForNesting_pure v s

/-- Rebuilding a value never fails for a type. -/
theorem not_failsForType_plain (v : Value) (s : State) :
    ¬ FailsForType ((Action.plain v).execute s).1 := by
  rintro ⟨e, he, htype⟩
  unfold Action.plain at he
  rw [Action.execute_get_bind] at he
  cases hrun : (Action.plainAt s.store.depth v).execute s with
  | mk r t =>
    rw [hrun] at he
    subst he
    rw [failsForNesting_plainAt _ v s e t hrun] at htype
    cases htype

/-- Two results are the same, or both are failures for a type. -/
def Agrees {α : Type} (r r' : Except Error α) : Prop :=
  r = r' ∨ (FailsForType r ∧ FailsForType r')

section

variable {depth : Nat} {ls : List Link} {ops : List Value} {v : Value} {s : State}

/-- A replay does what the calls themselves do, or it fails for a type. -/
theorem execute_replay_plain (hrecords : List.Forall₂ (Builder.IsRecord s) ls ops)
    (hrecordable : ∀ l ∈ ls, l.IsRecordable)
    (hopen : Link.Throughout (applyAt depth) Link.IsOpen v ls s) :
    (replay (applyAt (depth + 1)) v ops >>= Action.plain).execute s =
        (Link.chained (applyAt depth) v ls >>= Action.plain).execute s ∨
      FailsForType ((replay (applyAt (depth + 1)) v ops >>= Action.plain).execute s).1 := by
  by_cases hharmless : Link.Throughout (applyAt depth) (Link.IsHarmless (applyAt depth)) v ls s
  · cases execute_replay hrecords hrecordable hopen hharmless with
    | inl hsame => exact .inl (by rw [Action.execute_bind, Action.execute_bind, hsame])
    | inr hfail => exact .inr (failsForType_bind hfail.1)
  · exact .inr (failsForType_bind
      (failsForType_replay_of_not_isHarmless hrecords hrecordable hopen hharmless).1)

/-- A replay and the calls themselves agree exactly when every call that leaves out the page alone
fails for a type anyway. -/
theorem agrees_replay_iff (hrecords : List.Forall₂ (Builder.IsRecord s) ls ops)
    (hrecordable : ∀ l ∈ ls, l.IsRecordable)
    (hopen : Link.Throughout (applyAt depth) Link.IsOpen v ls s) :
    Agrees ((replay (applyAt (depth + 1)) v ops >>= Action.plain).execute s).1
        ((Link.chained (applyAt depth) v ls >>= Action.plain).execute s).1 ↔
      Link.Throughout (applyAt depth) (Link.IsHarmless (applyAt depth)) v ls s := by
  by_cases hharmless : Link.Throughout (applyAt depth) (Link.IsHarmless (applyAt depth)) v ls s
  · refine iff_of_true ?_ hharmless
    cases execute_replay hrecords hrecordable hopen hharmless with
    | inl hsame =>
      rw [Action.execute_bind, Action.execute_bind, hsame]
      exact .inl rfl
    | inr hfail => exact .inr ⟨failsForType_bind hfail.1, failsForType_bind hfail.2⟩
  · obtain ⟨hfails, hgoes⟩ :=
      failsForType_replay_of_not_isHarmless hrecords hrecordable hopen hharmless
    refine iff_of_false (fun hagrees => ?_) hharmless
    have hdirect : FailsForType
        ((Link.chained (applyAt depth) v ls >>= Action.plain).execute s).1 := by
      cases hagrees with
      | inl hsame =>
        rw [← hsame]
        exact failsForType_bind hfails
      | inr hboth => exact hboth.2
    rw [Action.execute_bind] at hdirect
    cases hchain : (Link.chained (applyAt depth) v ls).execute s with
    | mk r t =>
      rw [hchain] at hdirect hgoes
      cases r with
      | error e => exact hgoes hdirect
      | ok w => exact not_failsForType_plain w t hdirect

end

section

variable {depth : Nat} {policy context : Value} {b : Builder} {s : State} {y o : Address}
  {xs ops : List Value} {ls : List Link}

/-- A run does what the calls themselves do, or it fails for a type. -/
theorem execute_runOver_eq_or_fails (hitems : s.store.cell? y = some (.list xs))
    (hcontext : IsContext b context s) (hshown : b.shown = .ref o)
    (hops : s.store.cell? o = some (.tuple ops))
    (hrecords : List.Forall₂ (Builder.IsRecord s) ls ops) (hrecordable : ∀ l ∈ ls, l.IsRecordable)
    (hopen : ∀ a t, (opened (.ref y) policy b.validators).execute s = (.ok a, t) →
      Link.Throughout (applyAt depth) Link.IsOpen (.ref a) ls t) :
    (runOver (applyAt (depth + 1)) (.ref y) policy context).execute s =
        (direct (applyAt depth) (.ref y) policy b.validators ls).execute s ∨
      FailsForType ((runOver (applyAt (depth + 1)) (.ref y) policy context).execute s).1 := by
  rw [execute_runOver (steady_applyAt (depth + 1)) hitems hcontext hshown hops]
  unfold direct
  rw [Action.execute_bind, Action.execute_bind]
  cases hrun : (opened (.ref y) policy b.validators).execute s with
  | mk r t =>
    cases r with
    | error e => exact .inl rfl
    | ok a =>
      have hst := Action.evolves_of_execute (steady_opened _ _ _) hrun
      exact execute_replay_plain (hrecords.imp fun _ _ h => h.evolve hst) hrecordable
        (hopen a t hrun)

/-- A run and the calls themselves agree exactly when every call that leaves out the page alone
fails for a type anyway. -/
theorem agrees_runOver_iff (hitems : s.store.cell? y = some (.list xs))
    (hcontext : IsContext b context s) (hshown : b.shown = .ref o)
    (hops : s.store.cell? o = some (.tuple ops))
    (hrecords : List.Forall₂ (Builder.IsRecord s) ls ops) (hrecordable : ∀ l ∈ ls, l.IsRecordable)
    (hopen : ∀ a t, (opened (.ref y) policy b.validators).execute s = (.ok a, t) →
      Link.Throughout (applyAt depth) Link.IsOpen (.ref a) ls t) :
    Agrees ((runOver (applyAt (depth + 1)) (.ref y) policy context).execute s).1
        ((direct (applyAt depth) (.ref y) policy b.validators ls).execute s).1 ↔
      ∀ a t, (opened (.ref y) policy b.validators).execute s = (.ok a, t) →
        Link.Throughout (applyAt depth) (Link.IsHarmless (applyAt depth)) (.ref a) ls t := by
  rw [execute_runOver (steady_applyAt (depth + 1)) hitems hcontext hshown hops]
  unfold direct
  rw [Action.execute_bind, Action.execute_bind]
  cases hrun : (opened (.ref y) policy b.validators).execute s with
  | mk r t =>
    cases r with
    | error e =>
      refine iff_of_true (.inl rfl) fun a u h => ?_
      cases h
    | ok a =>
      have hst := Action.evolves_of_execute (steady_opened _ _ _) hrun
      have hafter := agrees_replay_iff (hrecords.imp fun _ _ h => h.evolve hst) hrecordable
        (hopen a t hrun)
      refine hafter.trans ⟨fun hharmless a' t' h => ?_, fun hall => hall a t rfl⟩
      cases h
      exact hharmless

end

end Executor

end Recordset
