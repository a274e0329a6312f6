import Mathlib.Data.List.Forall2
import Recordset.Collection.Visit
import Recordset.Proofs.Made
set_option autoImplicit false

/-!
# Reading, deriving and visiting a collection

What a collection is asked for while it is as it is: its items, its own methods, a collection over
other items.  A visit of items that stay as they are comes to its end, and keeps what each of its
steps keeps.
-/

namespace Recordset

/-! ## Reading and deriving -/

/-- A collection that holds the items of a list. -/
structure Store.Holds (s : Store) (a : Address) (c : Collection) (xs : List Value) : Prop where
  cell : s.cell? a = some (.collection c)
  list : s.cell? c.list = some (.list xs)

/-- A collection in whose list there are the items of a list, whatever else is in it. -/
def Store.Lists (s : Store) (a : Address) (xs : List Value) : Prop := ∃ c, s.Holds a c xs

theorem Store.Holds.extends {s t : State} {a : Address} {c : Collection} {xs : List Value}
    (h : s.store.Holds a c xs) (ht : s.Extends t) : t.store.Holds a c xs :=
  ⟨ht.collection h.cell, ht.list h.list⟩

theorem Store.Lists.extends {s t : State} {a : Address} {xs : List Value}
    (h : s.store.Lists a xs) (ht : s.Extends t) : t.store.Lists a xs := by
  obtain ⟨c, hholds⟩ := h
  exact ⟨c, hholds.extends ht⟩

theorem Store.Holds.items {s : Store} {a : Address} {c : Collection} {xs : List Value}
    (h : s.Holds a c xs) : s.items c = xs := by
  simp [Store.items, h.list]

/-- Where a collection is there is no list. -/
theorem Store.Holds.ne_list {s : Store} {a b : Address} {c d : Collection} {xs ys : List Value}
    (h : s.Holds a c xs) (hb : s.Holds b d ys) : a ≠ d.list := by
  rintro rfl
  cases h.cell.symm.trans hb.list

theorem Store.Holds.write {s : Store} {a : Address} {c : Collection} {xs : List Value}
    (h : s.Holds a c xs) (ys : List Value) : (s.write c.list (.list ys)).Holds a c ys :=
  ⟨(Store.cell?_write_of_ne _ (h.ne_list h)).trans h.cell,
    Store.cell?_write_of_lt _ (Array.getElem?_eq_some_iff.mp h.list).1⟩

namespace Collection

variable {caller : Caller} {a : Address} {c : Collection} {xs : List Value} {s : State}

theorem execute_read (h : s.store.cell? a = some (.collection c)) :
    (read a).execute s = (.ok c, s) := by
  unfold read
  rw [Action.execute_bind_of_ok (Action.execute_cell h)]
  rfl

theorem execute_itemsOf (h : s.store.Holds a c xs) : (itemsOf a).execute s = (.ok xs, s) := by
  unfold itemsOf
  rw [Action.execute_bind_of_ok (execute_read h.cell), Action.execute_get_bind, h.items]
  rfl

/-- A collection answers by its own method when no patch has put anything in its place. -/
theorem execute_through {m : Method} (hcell : s.store.cell? a = some (.collection c))
    (hown : c.fields.lookup m.name = none) (args : List Value) (method : Action Value) :
    (through caller a m args method).execute s = method.execute s := by
  unfold through
  rw [Action.execute_bind_of_ok (execute_read hcell), hown]

/-- The collection that is derived is made after its list. -/
theorem execute_derived (h : s.store.cell? a = some (.collection c)) (ys : List Value) :
    (derived a ys).execute s =
      (.ok (.ref ⟨(s.store.alloc (.list ys)).2.size⟩),
        { s with store := ((s.store.alloc (.list ys)).2.alloc
          (.collection (c.derive ⟨s.store.size⟩))).2 }) := by
  unfold derived deriveFrom
  rw [bind_assoc, Action.execute_bind_of_ok (execute_read h)]
  rfl

theorem derived_ok (hcell : s.store.cell? a = some (.collection c)) (ys : List Value) :
    ∃ b d t, (derived a ys).execute s = (.ok (.ref b), t) ∧ s.Later t ∧ t.store.Holds b d ys ∧
      d.fields = [] ∧ s.store.size ≤ b.index := by
  have hlist := State.later_alloc s (.list ys)
  have hnext := State.later_alloc { s with store := (s.store.alloc (.list ys)).2 }
    (.collection (c.derive ⟨s.store.size⟩))
  refine ⟨_, c.derive ⟨s.store.size⟩, _, execute_derived hcell ys, hlist.trans hnext,
    ⟨?_, ?_⟩, rfl, ?_⟩
  · exact (s.store.alloc (.list ys)).2.cell?_alloc _
  · exact hnext.grows.cells _ _ (s.store.cell?_alloc _)
  · exact hlist.size_le

/-- A collection is derived for each element of a list, over the items that go with it. -/
theorem mapM_derived_ok {α β : Type} (items : α → List Value) (wrap : α → Value → β) :
    ∀ (ps : List α) {s : State}, s.store.cell? a = some (.collection c) →
      ∃ qs t, (ps.mapM fun p => do return wrap p (← derived a (items p))).execute s = (.ok qs, t) ∧
        s.Later t ∧ List.Forall₂ (fun p q => ∃ b, q = wrap p (.ref b) ∧
          t.store.Lists b (items p)) ps qs := by
  intro ps
  induction ps with
  | nil => exact fun {s} _ => ⟨[], s, rfl, .refl s, .nil⟩
  | cons p ps ih =>
    intro s hcell
    obtain ⟨b, d, t, hrun, ht, hholds, -⟩ := derived_ok hcell (items p)
    obtain ⟨qs, u, hrest, hu, hqs⟩ := ih (ht.grows.cells a _ hcell)
    have hlists : u.store.Lists b (items p) := ⟨d, hholds.extends hu.extends⟩
    refine ⟨wrap p (.ref b) :: qs, u, ?_, ht.trans hu, .cons ⟨b, rfl, hlists⟩ hqs⟩
    rw [List.mapM_cons, bind_assoc, Action.execute_bind_of_ok hrun, pure_bind,
      Action.execute_bind_of_ok hrest]
    rfl

end Collection

/-! ## Visits that run to their end -/

/-- A visit that finds the items of a list comes to its end, and what it gives is right, when each
step from an index to the next keeps an invariant and each step that ends the visit ends it
rightly. -/
theorem Source.visitFrom_ok {σ : Type} {item : Nat → Action (Option Value)} {xs : List Value}
    {f : σ → Value → Nat → Action (Visit σ)} (Before : Nat → σ → State → Prop)
    (After : σ → State → Prop)
    (hitem : ∀ i state s, Before i state s → (item i).execute s = (.ok xs[i]?, s))
    (hstep : ∀ i (hi : i < xs.length) state s, Before i state s →
      (∃ next t, (f state xs[i] i).execute s = (.ok (.next next), t) ∧ Before (i + 1) next t) ∨
      ∃ last t, (f state xs[i] i).execute s = (.ok (.done last), t) ∧ After last t)
    (hend : ∀ state s, Before xs.length state s → After state s) :
    ∀ (fuel i : Nat) (state : σ) (s : State), i ≤ xs.length → xs.length < i + fuel →
      Before i state s →
      ∃ last t, (visitFrom item f fuel i state).execute s = (.ok last, t) ∧ After last t := by
  intro fuel
  induction fuel with
  | zero => intro i state s hle hfuel _; omega
  | succ fuel ih =>
    intro i state s hle hfuel hbefore
    rw [visitFrom, Action.execute_bind_of_ok (hitem i state s hbefore)]
    rcases Nat.lt_or_ge i xs.length with hi | hi
    · rw [List.getElem?_eq_getElem hi]
      rcases hstep i hi state s hbefore with ⟨next, t, hrun, hnext⟩ | ⟨last, t, hrun, hlast⟩
      · dsimp only
        rw [Action.execute_bind_of_ok hrun]
        exact ih (i + 1) next t hi (by omega) hnext
      · dsimp only
        rw [Action.execute_bind_of_ok hrun]
        exact ⟨last, t, rfl, hlast⟩
    · rw [List.getElem?_eq_none hi]
      obtain rfl : i = xs.length := Nat.le_antisymm hle hi
      exact ⟨state, s, rfl, hend state s hbefore⟩

namespace Collection

variable {a : Address} {c : Collection} {xs : List Value} {s : State}

/-- A visit of a collection whose items stay the same comes to its end, whatever else becomes of the
collection. -/
theorem visit_items_ok {σ : Type} {f : σ → Value → Nat → Action (Visit σ)} {init : σ}
    (Before : Nat → σ → State → Prop) (After : σ → State → Prop)
    (hlists : ∀ i state t, Before i state t → t.store.Lists a xs)
    (hstart : Before 0 init s)
    (hstep : ∀ i (hi : i < xs.length) state t, Before i state t →
      (∃ next u, (f state xs[i] i).execute t = (.ok (.next next), u) ∧ Before (i + 1) next u) ∨
      ∃ last u, (f state xs[i] i).execute t = (.ok (.done last), u) ∧ After last u)
    (hend : ∀ state t, Before xs.length state t → After state t) :
    ∃ last t, (visit a init f).execute s = (.ok last, t) ∧ After last t := by
  have hitems : ∀ i state t, Before i state t → (itemsOf a).execute t = (.ok xs, t) := by
    intro i state t hbefore
    obtain ⟨c, hholds⟩ := hlists i state t hbefore
    exact execute_itemsOf hholds
  unfold visit source Source.visit
  rw [bind_assoc, Action.execute_bind_of_ok (hitems 0 init s hstart), pure_bind]
  refine Source.visitFrom_ok Before After ?_ hstep hend _ 0 init s (Nat.zero_le _) ?_ hstart
  · intro i state t hbefore
    rw [Action.execute_bind_of_ok (hitems i state t hbefore)]
    rfl
  · dsimp only [growth]
    omega

/-- A visit of a collection that stays as it is comes to its end. -/
theorem visit_ok {σ : Type} {f : σ → Value → Nat → Action (Visit σ)} {init : σ}
    (Before : Nat → σ → State → Prop) (After : σ → State → Prop)
    (hholds : ∀ i state t, Before i state t → t.store.Holds a c xs)
    (hstart : Before 0 init s)
    (hstep : ∀ i (hi : i < xs.length) state t, Before i state t →
      (∃ next u, (f state xs[i] i).execute t = (.ok (.next next), u) ∧ Before (i + 1) next u) ∨
      ∃ last u, (f state xs[i] i).execute t = (.ok (.done last), u) ∧ After last u)
    (hend : ∀ state t, Before xs.length state t → After state t) :
    ∃ last t, (visit a init f).execute s = (.ok last, t) ∧ After last t :=
  visit_items_ok Before After (fun i state t h => ⟨c, hholds i state t h⟩) hstart hstep hend

/-- A visit of all items comes to its end when each step keeps an invariant. -/
theorem fold_ok {σ : Type} {f : σ → Value → Nat → Action σ} {init : σ}
    (Before : Nat → σ → State → Prop)
    (hholds : ∀ i state t, Before i state t → t.store.Holds a c xs)
    (hstart : Before 0 init s)
    (hstep : ∀ i (hi : i < xs.length) state t, Before i state t →
      ∃ next u, (f state xs[i] i).execute t = (.ok next, u) ∧ Before (i + 1) next u) :
    ∃ last t, (fold a init f).execute s = (.ok last, t) ∧ Before xs.length last t := by
  refine visit_ok Before (Before xs.length) hholds hstart ?_ fun _ _ h => h
  intro i hi state t hbefore
  obtain ⟨next, u, hrun, hnext⟩ := hstep i hi state t hbefore
  refine .inl ⟨next, u, ?_, hnext⟩
  rw [Action.execute_bind_of_ok hrun]
  rfl

end Collection

/-! ## Visits that change what they visit -/

/-- A visit of all items comes to its end or fails at one of them, when each step that succeeds
keeps an invariant under which the item at the next index is found. -/
theorem Source.visitFrom_cases {σ : Type} {item : Nat → Action (Option Value)} {xs : List Value}
    {f : σ → Value → Nat → Action σ} (Before : Nat → σ → State → Prop)
    (hitem : ∀ i state s, Before i state s → (item i).execute s = (.ok xs[i]?, s))
    (hstep : ∀ i (hi : i < xs.length) state s next t, Before i state s →
      (f state xs[i] i).execute s = (.ok next, t) → Before (i + 1) next t) :
    ∀ (fuel i : Nat) (state : σ) (s : State) {r : Except Error σ} {u : State}, i ≤ xs.length →
      xs.length < i + fuel → Before i state s →
      (visitFrom item (fun state v i => return .next (← f state v i)) fuel i state).execute s =
        (r, u) →
      (∃ last, r = .ok last ∧ Before xs.length last u) ∨
        ∃ (j : Nat) (hj : j < xs.length) (state : σ) (t : State) (e : Error), Before j state t ∧
          (f state xs[j] j).execute t = (.error e, u) ∧ r = .error e := by
  intro fuel
  induction fuel with
  | zero => intro i state s r u hle hfuel _ _; omega
  | succ fuel ih =>
    intro i state s r u hle hfuel hbefore hrun
    rw [visitFrom, Action.execute_bind_of_ok (hitem i state s hbefore)] at hrun
    rcases Nat.lt_or_ge i xs.length with hi | hi
    · rw [List.getElem?_eq_getElem hi] at hrun
      dsimp only at hrun
      rw [bind_assoc] at hrun
      rcases Action.execute_bind_cases hrun with ⟨e, rfl, hfails⟩ | ⟨next, t, hnext, hrest⟩
      · exact .inr ⟨i, hi, state, s, e, hbefore, hfails, rfl⟩
      · rw [pure_bind] at hrest
        exact ih (i + 1) next t hi (by omega) (hstep i hi state s next t hbefore hnext) hrest
    · rw [List.getElem?_eq_none hi] at hrun
      obtain rfl : i = xs.length := Nat.le_antisymm hle hi
      cases hrun
      exact .inl ⟨state, rfl, hbefore⟩

namespace Collection

variable {a : Address} {xs : List Value} {s u : State}

/-- A visit of a collection whose items change, but not those that are still to be visited, comes to
its end or fails at one of them. -/
theorem fold_cases {σ : Type} {f : σ → Value → Nat → Action σ} {init : σ} {r : Except Error σ}
    (Before : Nat → σ → State → Prop)
    (hlists : ∀ i state t, Before i state t →
      ∃ ys, t.store.Lists a ys ∧ ys.length = xs.length ∧ ys[i]? = xs[i]?)
    (hstart : Before 0 init s)
    (hstep : ∀ i (hi : i < xs.length) state t next u, Before i state t →
      (f state xs[i] i).execute t = (.ok next, u) → Before (i + 1) next u)
    (hrun : (fold a init f).execute s = (r, u)) :
    (∃ last, r = .ok last ∧ Before xs.length last u) ∨
      ∃ (i : Nat) (hi : i < xs.length) (state : σ) (t : State) (e : Error), Before i state t ∧
        (f state xs[i] i).execute t = (.error e, u) ∧ r = .error e := by
  obtain ⟨ys, ⟨c, hholds⟩, hlength, -⟩ := hlists 0 init s hstart
  unfold fold source Source.fold Source.visit at hrun
  rw [bind_assoc, Action.execute_bind_of_ok (execute_itemsOf hholds), pure_bind] at hrun
  refine Source.visitFrom_cases Before ?_ hstep _ 0 init s (Nat.zero_le _) ?_ hstart hrun
  · intro i state t hbefore
    obtain ⟨zs, ⟨d, hthere⟩, -, hitem⟩ := hlists i state t hbefore
    rw [Action.execute_bind_of_ok (execute_itemsOf hthere), hitem]
    rfl
  · dsimp only [growth]
    omega

/-- A visit of a collection whose items change, but not those that are still to be visited, comes to
its end when each step keeps an invariant. -/
theorem fold_changing_ok {σ : Type} {f : σ → Value → Nat → Action σ} {init : σ}
    (Before : Nat → σ → State → Prop)
    (hlists : ∀ i state t, Before i state t →
      ∃ ys, t.store.Lists a ys ∧ ys.length = xs.length ∧ ys[i]? = xs[i]?)
    (hstart : Before 0 init s)
    (hstep : ∀ i (hi : i < xs.length) state t, Before i state t →
      ∃ next u, (f state xs[i] i).execute t = (.ok next, u) ∧ Before (i + 1) next u) :
    ∃ last u, (fold a init f).execute s = (.ok last, u) ∧ Before xs.length last u := by
  have hkeeps : ∀ i (hi : i < xs.length) state t next u, Before i state t →
      (f state xs[i] i).execute t = (.ok next, u) → Before (i + 1) next u := by
    intro i hi state t next u hbefore hrun
    obtain ⟨_, _, hok, hnext⟩ := hstep i hi state t hbefore
    cases hok.symm.trans hrun
    exact hnext
  rcases fold_cases Before hlists hstart hkeeps rfl with
    ⟨last, hlast, hend⟩ | ⟨i, hi, state, t, e, hbefore, hfails, -⟩
  · exact ⟨last, _, Prod.ext hlast rfl, hend⟩
  · obtain ⟨_, _, hok, -⟩ := hstep i hi state t hbefore
    cases hok.symm.trans hfails

end Collection

/-! ## Visits as recursion over the items -/

/-- Visits the items of a list, the first of which is at an index. -/
def visitList {σ : Type} (f : σ → Value → Nat → Action (Visit σ)) :
    Nat → σ → List Value → Action σ
  | _, state, [] => return state
  | i, state, v :: rest => do
    match ← f state v i with
    | .next state => visitList f (i + 1) state rest
    | .done state => return state

/-- A visit that finds the items of a list, as long as each of its steps keeps what is needed for
that, visits them one after another. -/
theorem Source.visitFrom_eq {σ : Type} {item : Nat → Action (Option Value)} {xs : List Value}
    {f : σ → Value → Nat → Action (Visit σ)} {P : State → Prop}
    (hitem : ∀ i s, P s → (item i).execute s = (.ok xs[i]?, s))
    (hkeeps : ∀ state v i, Action.Keeps P (f state v i)) :
    ∀ (fuel i : Nat) (state : σ) (s : State), i ≤ xs.length → xs.length < i + fuel → P s →
      (visitFrom item f fuel i state).execute s = (visitList f i state (xs.drop i)).execute s := by
  intro fuel
  induction fuel with
  | zero => intro i state s hle hfuel _; omega
  | succ fuel ih =>
    intro i state s hle hfuel hs
    rw [visitFrom, Action.execute_bind_of_ok (hitem i s hs)]
    rcases Nat.lt_or_ge i xs.length with hi | hi
    · rw [List.getElem?_eq_getElem hi, List.drop_eq_getElem_cons hi, visitList]
      refine Action.execute_bind_congr fun next t hrun => ?_
      have ht : P t := by
        have hkept := hkeeps state xs[i] i s hs
        rwa [hrun] at hkept
      cases next with
      | next state => exact ih (i + 1) state t hi (by omega) ht
      | done state => rfl
    · rw [List.getElem?_eq_none hi, List.drop_eq_nil_of_le hi]
      rfl

namespace Collection

variable {a : Address} {xs : List Value} {s : State}

/-- A visit whose steps leave the items of a collection as they are visits these one after
another. -/
theorem execute_visit {σ : Type} {f : σ → Value → Nat → Action (Visit σ)} {init : σ}
    (hlists : s.store.Lists a xs)
    (hkeeps : ∀ state v i, Action.Keeps (fun t => t.store.Lists a xs) (f state v i)) :
    (visit a init f).execute s = (visitList f 0 init xs).execute s := by
  have hitems : ∀ t : State, t.store.Lists a xs → (itemsOf a).execute t = (.ok xs, t) :=
    fun t ⟨c, hholds⟩ => execute_itemsOf hholds
  unfold visit source Source.visit
  rw [bind_assoc, Action.execute_bind_of_ok (hitems s hlists), pure_bind]
  refine Source.visitFrom_eq (P := fun t => t.store.Lists a xs) ?_ hkeeps _ 0 init s
    (Nat.zero_le _) ?_ hlists
  · intro i t ht
    rw [Action.execute_bind_of_ok (hitems t ht)]
    rfl
  · dsimp only [growth]
    omega

end Collection

end Recordset
