import Recordset.Collection.Change
import Recordset.Collection.Summary
import Recordset.Proofs.Collection.Visit
import Recordset.Proofs.Steady.Known
set_option autoImplicit false

/-!
# One selection

A query decides for each position of a collection whether the item there is kept
(`Collection.Decides`).  The methods that take a query are separate visits: forwards, backwards, up
to the first hit or miss, into two lists, and in place.  All of them come to the same selection,
the kept items being those at the kept positions, in order (`Collection.picked`).

`Collection.selections_agree` is the main statement.
-/

namespace Recordset

namespace Query

variable {caller : Caller} {validators : Value}

/-! ## The bound on the nesting -/

/-- Entries that compile in one way do so in another way that gives the same wherever the first one
gives an expression. -/
theorem compileEach_of_ok {f g : Value → Value → Action Expression} {es : Entries}
    (h : ∀ key v s t e, (f key v).execute s = (.ok e, t) → (g key v).execute s = (.ok e, t)) :
    ∀ {s t : State} {parts : List Expression}, (compileEach f es).execute s = (.ok parts, t) →
      (compileEach g es).execute s = (.ok parts, t) := by
  induction es with
  | nil => exact fun hrun => hrun
  | cons entry rest ih =>
    intro s t parts hrun
    obtain ⟨key, v⟩ := entry
    obtain ⟨e, u, hfirst, hrun⟩ := Action.execute_bind_ok hrun
    obtain ⟨ds, w, hrest, hrun⟩ := Action.execute_bind_ok hrun
    rw [compileEach, Action.execute_bind_of_ok (h key v s u e hfirst),
      Action.execute_bind_of_ok (ih hrest)]
    exact hrun

/-- A query that compiles within a bound compiles to the same within the next. -/
theorem compileAt_succ : ∀ (fuel : Nat) {spec : Value} {s t : State} {e : Expression},
    (compileAt caller validators fuel spec).execute s = (.ok e, t) →
      (compileAt caller validators (fuel + 1) spec).execute s = (.ok e, t) := by
  intro fuel
  induction fuel with
  | zero => intro spec s t e h; cases h
  | succ fuel ih =>
    intro spec s t e h
    rw [compileAt, Action.execute_get_bind] at h ⊢
    dsimp only at h ⊢
    split at h
    · rename_i hcallable
      rw [if_pos hcallable]
      exact h
    · rename_i hcallable
      rw [if_neg hcallable]
      split at h
      · cases h
      · obtain ⟨parts, u, hparts, hassemble⟩ := Action.execute_bind_ok h
        refine (Action.execute_bind_of_ok (compileEach_of_ok ?_ hparts)).trans hassemble
        intro key clause v w d hentry
        rw [Action.execute_get_bind] at hentry ⊢
        cases key with
        | str name =>
          dsimp only at hentry ⊢
          split at hentry
          · rename_i hnegation
            rw [if_pos hnegation]
            split at hentry
            · rename_i hnested
              rw [if_pos hnested]
              obtain ⟨inner, x, hinner, hnot⟩ := Action.execute_bind_ok hentry
              exact (Action.execute_bind_of_ok (ih hinner)).trans hnot
            · rename_i hnested
              rw [if_neg hnested]
              exact hentry
          · rename_i hnegation
            rw [if_neg hnegation]
            exact hentry
        | _ => exact hentry

/-- A query that compiles within a bound compiles to the same within any larger one. -/
theorem compileAt_mono {fuel more : Nat} (hle : fuel ≤ more) {spec : Value} {s t : State}
    {e : Expression} (h : (compileAt caller validators fuel spec).execute s = (.ok e, t)) :
    (compileAt caller validators more spec).execute s = (.ok e, t) := by
  induction hle with
  | refl => exact h
  | step _ ih => exact compileAt_succ _ ih

end Query

namespace Collection

variable {caller : Caller} {a : Address} {c : Collection} {xs : List Value} {s : State}

/-! ## Selections -/

/-- The items at those of the first `n` positions that are kept, in order. -/
def picked (keep : Nat → Bool) (xs : List Value) (n : Nat) : List Value :=
  ((List.range n).filter keep).filterMap (xs[·]?)

/-- The items at the positions that are kept, in order. -/
def pick (keep : Nat → Bool) (xs : List Value) : List Value := picked keep xs xs.length

variable {keep : Nat → Bool}

theorem picked_succ_of_kept {i : Nat} (hi : i < xs.length) (hkeep : keep i = true) :
    picked keep xs (i + 1) = picked keep xs i ++ [xs[i]] := by
  simp [picked, List.range_succ, List.filter_append, List.filterMap_append, hkeep, hi]

theorem picked_succ_of_dropped {i : Nat} (hkeep : keep i = false) :
    picked keep xs (i + 1) = picked keep xs i := by
  simp [picked, List.range_succ, List.filter_append, hkeep]

theorem pick_congr {other : Nat → Bool} (h : ∀ i < xs.length, keep i = other i) :
    pick keep xs = pick other xs := by
  unfold pick picked
  rw [List.filter_congr fun i hi => h i (List.mem_range.mp hi)]

/-- What is picked from the first positions comes first. -/
theorem picked_prefix {m n : Nat} (hle : m ≤ n) : picked keep xs m <+: picked keep xs n := by
  induction hle with
  | refl => exact List.prefix_rfl
  | step _ ih =>
    refine ih.trans ?_
    unfold picked
    rw [List.range_succ, List.filter_append, List.filterMap_append]
    exact List.prefix_append _ _

theorem length_picked {n : Nat} (hn : n ≤ xs.length) :
    (picked keep xs n).length = ((List.range n).filter keep).length := by
  induction n with
  | zero => rfl
  | succ n ih =>
    have hi : n < xs.length := hn
    cases hkeep : keep n with
    | true =>
      rw [picked_succ_of_kept hi hkeep, List.length_append, ih (Nat.le_of_lt hi), List.range_succ]
      simp [List.filter_append, hkeep]
    | false =>
      rw [picked_succ_of_dropped hkeep, ih (Nat.le_of_lt hi), List.range_succ]
      simp [List.filter_append, hkeep]

/-- All items are picked exactly when every position is kept. -/
theorem pick_eq_self_iff : pick keep xs = xs ↔ ∀ i < xs.length, keep i = true := by
  constructor
  · intro h i hi
    have hlength : (pick keep xs).length = _ := length_picked (Nat.le_refl xs.length)
    rw [h] at hlength
    have hall : ((List.range xs.length).filter keep).length = (List.range xs.length).length := by
      rw [← hlength, List.length_range]
    exact List.length_filter_eq_length_iff.mp hall i (List.mem_range.mpr hi)
  · intro h
    have hpicked : ∀ n ≤ xs.length, picked keep xs n = xs.take n := by
      intro n
      induction n with
      | zero => intro _; rfl
      | succ n ih =>
        intro hn
        rw [picked_succ_of_kept hn (h n hn), ih (Nat.le_of_lt hn)]
        exact List.take_append_getElem hn
    unfold pick
    rw [hpicked _ (Nat.le_refl _), List.take_length]

/-- An expression answers for each item at its position whether it is kept, and testing changes
nothing that has been made. -/
def Answers (caller : Caller) (xs : List Value) (keep : Nat → Bool) (e : Expression) (s : State) :
    Prop :=
  ∀ t, s.Grows t → ∀ i (hi : i < xs.length),
    ∃ u, (e.test caller xs[i] i).execute t = (.ok (keep i), u) ∧ t.Grows u

/-- A query decides for each position whether the item there is kept.  Whatever has been made in
the meantime, it compiles, to an expression that raises for none of the items and answers for each
one by its position, without changing anything that has been made.  The bound on the nesting is that
of the state in which the query was there. -/
def Decides (caller : Caller) (validators spec : Value) (xs : List Value) (keep : Nat → Bool)
    (s : State) : Prop :=
  ∀ t, s.Grows t → ∃ e u,
    (Query.compileAt caller validators s.store.depth spec).execute t = (.ok e, u) ∧ t.Extends u ∧
      Answers caller xs keep e u

/-- A negation keeps what is dropped without it. -/
theorem Answers.not {e : Expression} (h : Answers caller xs keep e s) :
    Answers caller xs (!keep ·) (.not e) s := by
  intro t ht i hi
  obtain ⟨u, hrun, hu⟩ := h t ht i hi
  refine ⟨u, ?_, hu⟩
  rw [Expression.test, Action.execute_bind_of_ok hrun]
  rfl

variable {validators spec : Value}

/-- A query that decides compiles, also with the bound on the nesting that holds by then. -/
theorem Decides.compiles (h : Decides caller validators spec xs keep s) {t : State}
    (ht : s.Grows t) :
    ∃ e u, (Query.compile caller validators spec).execute t = (.ok e, u) ∧ t.Extends u ∧
      Answers caller xs keep e u := by
  obtain ⟨e, u, hrun, hu, hanswers⟩ := h t ht
  refine ⟨e, u, ?_, hu, hanswers⟩
  unfold Query.compile
  rw [Action.execute_get_bind]
  exact Query.compileAt_mono (Nat.add_le_add_right ht.extends.evolves.size_le 2) hrun

/-- A query that decides is a mapping or can be called. -/
theorem Decides.isQuery (h : Decides caller validators spec xs keep s) {t : State}
    (ht : s.Grows t) : (t.store.isMapping spec || t.store.isCallable spec) = true := by
  obtain ⟨e, u, hrun, -⟩ := h t ht
  unfold Store.depth at hrun
  rw [Query.compileAt, Action.execute_get_bind] at hrun
  dsimp only at hrun
  unfold Store.isMapping
  cases hcallable : t.store.isCallable spec with
  | true => simp
  | false =>
    rw [hcallable] at hrun
    cases hentries : t.store.entries? spec with
    | some es => rfl
    | none =>
      rw [hentries] at hrun
      cases hrun

/-- The negation of a query that decides keeps what the query drops. -/
theorem Decides.negation (h : Decides caller validators spec xs keep s) :
    Decides caller validators (.ref ⟨s.store.size⟩) xs (!keep ·)
      { s with store := (s.store.alloc (.dict [(.str Operator.negation, spec)])).2 } := by
  intro t ht
  have hcell : t.store.cell? ⟨s.store.size⟩ = some (.dict [(.str Operator.negation, spec)]) :=
    ht.cells _ _ (s.store.cell?_alloc _)
  have hgrows : s.Grows t := (State.grows_alloc s _).trans ht
  obtain ⟨e, u, hrun, hu, hanswers⟩ := h t hgrows
  refine ⟨.not e, u, ?_, hu, hanswers.not⟩
  have hdepth : (s.store.alloc (.dict [(.str Operator.negation, spec)])).2.depth =
      s.store.depth + 1 := by
    simp [Store.depth, Store.size, Store.alloc]
  rw [hdepth, Query.compileAt, Action.execute_get_bind]
  have hcallable : t.store.isCallable (.ref ⟨s.store.size⟩) = false := by
    simp [Store.isCallable, Store.view, hcell]
  have hentries : t.store.entries? (.ref ⟨s.store.size⟩) =
      some [(.str Operator.negation, spec)] := by
    simp [Store.entries?, Store.view, hcell]
  dsimp only
  rw [hcallable, hentries]
  dsimp only [Query.compileEach]
  rw [if_neg Bool.false_ne_true, bind_assoc, bind_assoc, Action.execute_get_bind, if_pos rfl,
    if_pos (h.isQuery hgrows), bind_assoc, Action.execute_bind_of_ok hrun]
  rfl

/-! ## The methods -/

/-- An item that is drawn is drawn as it is found. -/
theorem execute_drawing {α : Type} {x : Action α} {t : State} {v : α}
    (h : x.execute s = (.ok v, t)) : (drawing x).execute s = (.ok v, t) := by
  unfold drawing
  rw [Action.execute_tryCatch, h]

/-- The items that are kept are found when testing keeps an invariant under which they are as they
are. -/
theorem matching_invariant {e : Expression} {Before : State → Prop}
    (hholds : ∀ t, Before t → t.store.Holds a c xs) (hstart : Before s)
    (htest : ∀ t, Before t → ∀ i (hi : i < xs.length),
      ∃ u, (e.test caller xs[i] i).execute t = (.ok (keep i), u) ∧ Before u) :
    ∃ t, (matching caller e a).execute s = (.ok (pick keep xs), t) ∧ Before t := by
  have hfold : ∃ kept t, (matching caller e a).execute s = (.ok kept, t) ∧
      kept = pick keep xs ∧ Before t := by
    refine fold_ok (c := c) (fun i kept t => kept = picked keep xs i ∧ Before t)
      (fun i kept t h => hholds t h.2) ⟨rfl, hstart⟩ ?_
    rintro i hi kept t ⟨rfl, ht⟩
    obtain ⟨u, htest, hu⟩ := htest t ht i hi
    rw [Action.execute_bind_of_ok (execute_drawing htest)]
    cases hkeep : keep i with
    | true => exact ⟨_, u, rfl, (picked_succ_of_kept hi hkeep).symm, hu⟩
    | false => exact ⟨_, u, rfl, (picked_succ_of_dropped hkeep).symm, hu⟩
  obtain ⟨kept, t, hrun, rfl, ht⟩ := hfold
  exact ⟨t, hrun, ht⟩

theorem matching_ok {e : Expression} (hholds : s.store.Holds a c xs)
    (hanswers : Answers caller xs keep e s) :
    ∃ t, (matching caller e a).execute s = (.ok (pick keep xs), t) ∧ s.Grows t := by
  refine matching_invariant (fun t ht => hholds.extends ht.extends) (.refl s) fun t ht i hi => ?_
  obtain ⟨u, htest, hu⟩ := hanswers t ht i hi
  exact ⟨u, htest, ht.trans hu⟩

/-- An action gives a new collection over the items of a list, and changes no items and no fields of
anything else. -/
def Gives (x : Action Value) (ys : List Value) (s : State) : Prop :=
  ∃ b d t, x.execute s = (.ok (.ref b), t) ∧ s.Extends t ∧ t.store.Holds b d ys ∧ d.fields = [] ∧
    s.store.size ≤ b.index

theorem Gives.of_extends {x y : Action Value} {ys : List Value} {t : State} (ht : s.Extends t)
    (hrun : x.execute s = y.execute t) (h : Gives y ys t) : Gives x ys s := by
  obtain ⟨b, d, u, hy, hu, hholds, hfields, hfresh⟩ := h
  exact ⟨b, d, u, hrun.trans hy, ht.trans hu, hholds, hfields,
    Nat.le_trans ht.evolves.size_le hfresh⟩

theorem gives_derived (hcell : s.store.cell? a = some (.collection c)) (ys : List Value) :
    Gives (derived a ys) ys s := by
  obtain ⟨b, d, t, hrun, ht, h⟩ := derived_ok hcell ys
  exact ⟨b, d, t, hrun, ht.extends, h⟩

/-- Compiling with the operators of a collection. -/
theorem execute_compile (hcell : s.store.cell? a = some (.collection c)) :
    (compile caller a spec).execute s =
      (Query.compile caller (.ref c.validators) spec).execute s := by
  unfold compile
  rw [Action.execute_bind_of_ok (execute_read hcell)]

theorem compile_ok (hholds : s.store.Holds a c xs)
    (h : Decides caller (.ref c.validators) spec xs keep s) :
    ∃ e t, (compile caller a spec).execute s = (.ok e, t) ∧ s.Extends t ∧
      t.store.Holds a c xs ∧ Answers caller xs keep e t := by
  obtain ⟨e, t, hrun, ht, hanswers⟩ := h.compiles (.refl s)
  exact ⟨e, t, (execute_compile hholds.cell).trans hrun, ht, hholds.extends ht, hanswers⟩

theorem Decides.ne_null (h : Decides caller validators spec xs keep s) : spec ≠ .null := by
  rintro rfl
  cases h.isQuery (.refl s)

theorem Decides.ne_str (h : Decides caller validators spec xs keep s) (t : String) :
    spec ≠ .str t := by
  rintro rfl
  cases h.isQuery (.refl s)

/-- Keeping the items of a query. -/
theorem gives_filter (hholds : s.store.Holds a c xs)
    (h : Decides caller (.ref c.validators) spec xs keep s) :
    Gives (filter caller a spec) (pick keep xs) s := by
  obtain ⟨e, t, hcompile, ht, hlater, hanswers⟩ := compile_ok hholds h
  obtain ⟨u, hmatching, hu⟩ := matching_ok hlater hanswers
  refine (gives_derived (hlater.extends hu.extends).cell _).of_extends (ht.trans hu.extends) ?_
  unfold filter
  rw [Action.execute_bind_of_ok hcompile, Action.execute_bind_of_ok hmatching]

/-- Dropping them. -/
theorem gives_except (hholds : s.store.Holds a c xs)
    (hown : c.fields.lookup Method.filter.name = none)
    (h : Decides caller (.ref c.validators) spec xs keep s) :
    Gives (except caller a spec) (pick (!keep ·) xs) s := by
  have hgrows := State.grows_alloc s (.dict [(.str Operator.negation, spec)])
  have hlater := hholds.extends hgrows.extends
  refine (gives_filter hlater h.negation).of_extends hgrows.extends ?_
  unfold except
  rw [Action.execute_bind_of_ok (Action.execute_make _ _), execute_through hlater.cell hown]

/-- The items are put into two lists when testing keeps an invariant under which they are as they
are. -/
theorem partition_invariant {e : Expression} {t : State} {Before : State → Prop}
    (hcompile : (compile caller a spec).execute s = (.ok e, t))
    (hholds : ∀ u, Before u → u.store.Holds a c xs) (hstart : Before t)
    (htest : ∀ u, Before u → ∀ i (hi : i < xs.length),
      ∃ w, (e.test caller xs[i] i).execute u = (.ok (keep i), w) ∧ Before w) :
    ∃ v u w b d p q, (partition caller a spec).execute s = (.ok (.ref v), w) ∧ Before u ∧
      u.Later w ∧ w.store.cell? v = some (.tuple [.ref p, .ref q]) ∧
      w.store.Holds p b (pick keep xs) ∧ w.store.Holds q d (pick (!keep ·) xs) := by
  have hfold : ∃ parts u, (do (← source a).parted fun item i => e.test caller item i).execute t =
      (.ok parts, u) ∧ parts = (pick keep xs, pick (!keep ·) xs) ∧ Before u := by
    refine fold_ok (c := c)
      (fun i parts u => parts = (picked keep xs i, picked (!keep ·) xs i) ∧ Before u)
      (fun i parts u h => hholds u h.2) ⟨rfl, hstart⟩ ?_
    rintro i hi _ u ⟨rfl, hu⟩
    obtain ⟨w, htest, hw⟩ := htest u hu i hi
    dsimp only
    rw [Action.execute_bind_of_ok htest]
    cases hkeep : keep i with
    | true =>
      have hleft : (!keep i) = false := by rw [hkeep]; rfl
      exact ⟨_, w, rfl, Prod.ext (picked_succ_of_kept hi hkeep).symm
        (picked_succ_of_dropped hleft).symm, hw⟩
    | false =>
      have hleft : (!keep i) = true := by rw [hkeep]; rfl
      exact ⟨_, w, rfl, Prod.ext (picked_succ_of_dropped hkeep).symm
        (picked_succ_of_kept hi hleft).symm, hw⟩
  obtain ⟨_, u, hparted, rfl, hu⟩ := hfold
  have hthere := (hholds u hu).cell
  obtain ⟨p, b, v, hpassed, hv, hp, -⟩ := derived_ok hthere (pick keep xs)
  obtain ⟨q, d, w, hfailed, hw, hq, -⟩ :=
    derived_ok (hv.grows.cells _ _ hthere) (pick (!keep ·) xs)
  have hmade := State.later_alloc w (.tuple [.ref p, .ref q])
  refine ⟨⟨w.store.size⟩, u, _, b, d, p, q, ?_, hu, hv.trans (hw.trans hmade),
    w.store.cell?_alloc _, hp.extends (hw.trans hmade).extends, hq.extends hmade.extends⟩
  unfold partition
  rw [Action.execute_bind_of_ok hcompile, ← bind_assoc, Action.execute_bind_of_ok hparted]
  dsimp only
  rw [Action.execute_bind_of_ok hpassed, Action.execute_bind_of_ok hfailed]
  rfl

theorem partition_ok (hholds : s.store.Holds a c xs)
    (h : Decides caller (.ref c.validators) spec xs keep s) :
    ∃ v t b d p q, (partition caller a spec).execute s = (.ok (.ref v), t) ∧
      t.store.cell? v = some (.tuple [.ref p, .ref q]) ∧
      t.store.Holds p b (pick keep xs) ∧ t.store.Holds q d (pick (!keep ·) xs) := by
  obtain ⟨e, t, hcompile, ht, hlater, hanswers⟩ := compile_ok hholds h
  obtain ⟨v, u, w, b, d, p, q, hrun, -, -, hparts⟩ := partition_invariant hcompile
    (fun u (hu : t.Grows u) => hlater.extends hu.extends) (.refl t) fun u hu i hi => by
      obtain ⟨w, htest, hw⟩ := hanswers u hu i hi
      exact ⟨w, htest, hu.trans hw⟩
  exact ⟨v, w, b, d, p, q, hrun, hparts⟩

theorem setItems_ok (hholds : s.store.Holds a c xs) (ys : List Value) :
    ∃ d t, (setItems a ys).execute s = (.ok ⟨⟩, t) ∧ t.store.Holds a d ys := by
  have hfilled := hholds.write ys
  unfold setItems Action.fillList
  rw [Action.execute_bind_of_ok (execute_read hholds.cell), bind_assoc,
    Action.execute_bind_of_ok (Action.execute_cell hholds.list)]
  refine ⟨{ c with grown := c.grown || !ys.isEmpty }, _, rfl, ⟨?_, ?_⟩⟩
  · exact Store.cell?_write_of_lt _ (Array.getElem?_eq_some_iff.mp hfilled.cell).1
  · exact (Store.cell?_write_of_ne _ (hfilled.ne_list hfilled).symm).trans hfilled.list

theorem delete_ok (hholds : s.store.Holds a c xs)
    (h : Decides caller (.ref c.validators) spec xs keep s) :
    ∃ d t, (delete caller a spec).execute s = (.ok (.ref a), t) ∧
      t.store.Holds a d (pick (!keep ·) xs) := by
  obtain ⟨e, t, hcompile, ht, hlater, hanswers⟩ := compile_ok hholds h
  have hfold : ∃ kept u, (fold a [] fun kept item i => do
        if ← e.test caller item i then return kept else return kept ++ [item]).execute t =
      (.ok kept, u) ∧ kept = pick (!keep ·) xs ∧ t.Grows u := by
    refine fold_ok (c := c) (fun i kept u => kept = picked (!keep ·) xs i ∧ t.Grows u)
      (fun i kept u h => hlater.extends h.2.extends) ⟨rfl, .refl t⟩ ?_
    rintro i hi _ u ⟨rfl, hu⟩
    obtain ⟨w, htest, hw⟩ := hanswers u hu i hi
    rw [Action.execute_bind_of_ok htest]
    cases hkeep : keep i with
    | true => exact ⟨_, w, rfl, (picked_succ_of_dropped (by simp [hkeep])).symm, hu.trans hw⟩
    | false => exact ⟨_, w, rfl, (picked_succ_of_kept hi (by simp [hkeep])).symm, hu.trans hw⟩
  obtain ⟨_, u, hkept, rfl, hu⟩ := hfold
  obtain ⟨d, v, hset, hv⟩ := setItems_ok (hlater.extends hu.extends) (pick (!keep ·) xs)
  refine ⟨d, v, ?_, hv⟩
  unfold delete
  rw [Action.execute_bind_of_ok hcompile, Action.execute_bind_of_ok hkept,
    Action.execute_bind_of_ok hset]
  rfl

/-- Nothing has been set on what had not been made by then. -/
theorem mark?_eq_none {s : Store} (hmarks : ∀ m ∈ s.marks, s.Knows m.1) {b : Address}
    (hfresh : s.size ≤ b.index) (name : String) : s.mark? (.ref b) name = none := by
  unfold Store.mark?
  rw [List.find?_eq_none.mpr]
  · rfl
  · intro m hm hsame
    have hknows := hmarks m hm
    have hother : m.1.same (.ref b) = false := by
      cases hm1 : m.1 with
      | ref a =>
        rw [hm1] at hknows
        have hlt : a.index < s.size := hknows
        refine beq_eq_false_iff_ne.mpr fun hab => ?_
        rw [hab] at hlt
        omega
      | _ => rfl
    rw [hother] at hsame
    cases hsame

/-- What is kept under the name of the list of a collection. -/
theorem attributeOf_items (hcell : s.store.cell? a = some (.collection c)) (hfields : c.fields = [])
    (hmark : s.store.mark? (.ref a) "_items" = none) :
    (Action.attributeOf (.ref a) "_items").execute s = (.ok (.ref c.list), s) := by
  have hshown : Attribute.ofName? "_items" = none := by decide +kernel
  have hmethod : (Method.ofName? "_items").isSome = false := by decide +kernel
  have hshared : "_items" ≠ Attribute.name .sharedExtensions := by decide +kernel
  have hinternal : "_items".startsWith "_" = true := by decide +kernel
  have hown : (Action.attribute? (.ref a) "_items").execute s = (.ok (some (.ref c.list)), s) := by
    unfold Action.attribute?
    rw [Action.execute_get_bind, hmark]
    unfold Action.ownAttribute
    simp only [Value.number?]
    rw [Action.execute_get_bind, hcell]
    dsimp only
    unfold Action.collectionAttribute
    rw [hshown, hfields, hmethod, hinternal]
    dsimp only [List.lookup]
    rw [if_neg hshared, if_neg Bool.false_ne_true, if_pos rfl]
    rfl
  unfold Action.attributeOf
  rw [Action.execute_bind_of_ok hown]
  rfl

theorem count_ok (hholds : s.store.Holds a c xs)
    (hown : c.fields.lookup Method.filter.name = none)
    (hmarks : ∀ m ∈ s.store.marks, s.store.Knows m.1)
    (h : Decides caller (.ref c.validators) spec xs keep s) :
    ∃ t, (count caller a spec).execute s = (.ok (.int (pick keep xs).length), t) := by
  obtain ⟨b, d, t, hfilter, ht, hb, hfields, hfresh⟩ := gives_filter hholds h
  have hmark : t.store.mark? (.ref b) "_items" = none := by
    refine Eq.trans ?_ (mark?_eq_none hmarks hfresh "_items")
    simp only [Store.mark?, ht.marks]
  have hattribute := attributeOf_items hb.cell hfields hmark
  have hiterate : (Action.iterate (.ref d.list)).execute t = (.ok (pick keep xs), t) := by
    unfold Action.iterate
    rw [Action.execute_bind, Action.execute_look]
    simp only [Store.elements, Store.view, hb.list]
    rw [Action.execute_bind_of_ok (Action.execute_cell hb.list)]
    rfl
  refine ⟨t, ?_⟩
  unfold count
  split
  · exact absurd rfl h.ne_null
  · rw [Action.execute_bind_of_ok ((execute_through hholds.cell hown _ _).trans hfilter),
      Action.execute_bind_of_ok hattribute, Action.execute_bind_of_ok hiterate]
    rfl

/-- The first item that is kept. -/
theorem first_ok (hholds : s.store.Holds a c xs)
    (h : Decides caller (.ref c.validators) spec xs keep s) :
    ∃ t, (first caller a spec).execute s = (.ok ((pick keep xs).head?.getD .null), t) := by
  obtain ⟨e, t, hcompile, ht, hlater, hanswers⟩ := compile_ok hholds h
  have hvisit : ∃ found u, (visit a .null fun _ item i => do
        if ← e.test caller item i then return .done item else return .next .null).execute t =
      (.ok found, u) ∧ found = (pick keep xs).head?.getD .null := by
    refine visit_ok (c := c) (fun i found u => found = .null ∧ picked keep xs i = [] ∧ t.Grows u)
      (fun found _ => found = (pick keep xs).head?.getD .null)
      (fun i found u h => hlater.extends h.2.2.extends) ⟨rfl, rfl, .refl t⟩ ?_ ?_
    · rintro i hi _ u ⟨rfl, hnone, hu⟩
      obtain ⟨w, htest, hw⟩ := hanswers u hu i hi
      rw [Action.execute_bind_of_ok htest]
      cases hkeep : keep i with
      | true =>
        refine .inr ⟨xs[i], w, rfl, ?_⟩
        have hprefix : picked keep xs (i + 1) <+: pick keep xs := picked_prefix hi
        obtain ⟨rest, hrest⟩ := hprefix
        rw [picked_succ_of_kept hi hkeep, hnone] at hrest
        rw [← hrest]
        rfl
      | false =>
        exact .inl ⟨.null, w, rfl, rfl, (picked_succ_of_dropped hkeep).trans hnone, hu.trans hw⟩
    · rintro _ u ⟨rfl, hnone, -⟩
      rw [pick, hnone]
      rfl
  obtain ⟨_, u, hfound, rfl⟩ := hvisit
  refine ⟨u, ?_⟩
  unfold first
  split
  · exact absurd rfl h.ne_null
  · rw [Action.execute_bind_of_ok hcompile, hfound]

theorem lastBelow_ok {e : Expression} (hholds : s.store.Holds a c xs)
    (hanswers : Answers caller xs keep e s) :
    ∀ (n : Nat) (t : State), n ≤ xs.length → s.Grows t →
      ∃ u, (lastBelow caller e a n).execute t =
        (.ok ((picked keep xs n).getLast?.getD .null), u) := by
  intro n
  induction n with
  | zero => exact fun t _ _ => ⟨t, rfl⟩
  | succ n ih =>
    intro t hn ht
    have hi : n < xs.length := hn
    obtain ⟨u, htest, hu⟩ := hanswers t ht n hi
    have hthere := hholds.extends (ht.trans hu).extends
    rw [lastBelow, Action.execute_bind_of_ok (execute_itemsOf (hholds.extends ht.extends)),
      List.getElem?_eq_getElem hi]
    dsimp only
    rw [Action.execute_bind_of_ok htest]
    cases hkeep : keep n with
    | true =>
      refine ⟨u, ?_⟩
      rw [if_pos rfl, Action.execute_bind_of_ok (execute_itemsOf hthere),
        List.getElem?_eq_getElem hi, picked_succ_of_kept hi hkeep]
      simp
    | false =>
      rw [picked_succ_of_dropped hkeep]
      exact ih u (Nat.le_of_lt hi) (ht.trans hu)

/-- The last item that is kept. -/
theorem last_ok (hholds : s.store.Holds a c xs)
    (h : Decides caller (.ref c.validators) spec xs keep s) :
    ∃ t, (last caller a spec).execute s = (.ok ((pick keep xs).getLast?.getD .null), t) := by
  obtain ⟨e, t, hcompile, ht, hlater, hanswers⟩ := compile_ok hholds h
  obtain ⟨u, hrun⟩ := lastBelow_ok hlater hanswers xs.length t (Nat.le_refl _) (.refl t)
  refine ⟨u, ?_⟩
  unfold last
  split
  · exact absurd rfl h.ne_null
  · rw [Action.execute_bind_of_ok hcompile, Action.execute_bind_of_ok (execute_itemsOf hlater)]
    exact hrun

/-- Whether all items are kept. -/
theorem every_ok (hholds : s.store.Holds a c xs)
    (h : Decides caller (.ref c.validators) spec xs keep s) :
    ∃ held t, (every caller a [spec]).execute s = (.ok (.bool held), t) ∧
      (held = true ↔ pick keep xs = xs) := by
  obtain ⟨e, t, hcompile, ht, hlater, hanswers⟩ := compile_ok hholds h
  have hvisit : ∃ held u, (allMatch caller e a).execute t = (.ok held, u) ∧
      (held = true ↔ pick keep xs = xs) := by
    refine visit_ok (c := c)
      (fun i held u => held = true ∧ (∀ j < i, keep j = true) ∧ t.Grows u)
      (fun held _ => held = true ↔ pick keep xs = xs)
      (fun i held u h => hlater.extends h.2.2.extends) ⟨rfl, by simp, .refl t⟩ ?_ ?_
    · rintro i hi _ u ⟨rfl, hkept, hu⟩
      obtain ⟨w, htest, hw⟩ := hanswers u hu i hi
      rw [Action.execute_bind_of_ok (execute_drawing htest)]
      cases hkeep : keep i with
      | true =>
        refine .inl ⟨true, w, rfl, rfl, fun j hj => ?_, hu.trans hw⟩
        rcases Nat.lt_succ_iff_lt_or_eq.mp hj with hlt | rfl
        · exact hkept j hlt
        · exact hkeep
      | false =>
        refine .inr ⟨false, w, rfl, ?_⟩
        rw [pick_eq_self_iff]
        constructor
        · intro hfalse
          cases hfalse
        · intro hall
          rw [hall i hi] at hkeep
          cases hkeep
    · rintro _ u ⟨rfl, hkept, -⟩
      exact ⟨fun _ => pick_eq_self_iff.mpr hkept, fun _ => rfl⟩
  obtain ⟨held, u, hrun, hheld⟩ := hvisit
  refine ⟨held, u, ?_, hheld⟩
  unfold every
  split
  · rename_i path heq
    exact absurd (List.head_eq_of_cons_eq heq) (h.ne_str path)
  · rename_i other _ heq
    obtain rfl : spec = other := List.head_eq_of_cons_eq heq
    rw [Action.execute_bind_of_ok hcompile, Action.execute_bind_of_ok hrun]
    rfl
  · rename_i heq
    cases heq
  · rename_i heq
    cases heq
  · rename_i hother _ _
    exact absurd rfl (hother spec)

/-- Without a query the first and the last item are those that the collection holds. -/
theorem ends_ok (hholds : s.store.Holds a c xs) :
    (first caller a .null).execute s = (.ok (xs.head?.getD .null), s) ∧
      (last caller a .null).execute s = (.ok (xs.getLast?.getD .null), s) := by
  unfold first last
  dsimp only
  rw [Action.execute_bind_of_ok (execute_itemsOf hholds),
    Action.execute_bind_of_ok (execute_itemsOf hholds)]
  exact ⟨rfl, rfl⟩

/-- The query that a shorthand stands for is made; nothing else changes. -/
theorem grows_ofShorthand {args : List Value} {t : State}
    (h : (Query.ofShorthand args).execute s = (.ok spec, t)) : s.Grows t := by
  have hsingle : ∀ (path : Value) (symbol : String) (operand : Value),
      (Query.single path symbol operand).execute s = (.ok spec, t) → s.Grows t := by
    intro path symbol operand hrun
    unfold Query.single at hrun
    rw [Action.execute_get_bind] at hrun
    dsimp only at hrun
    split at hrun
    · cases hrun
      exact (State.grows_alloc s _).trans (State.grows_alloc _ _)
    · cases hrun
  unfold Query.ofShorthand at h
  split at h
  · exact hsingle _ _ _ h
  · split at h
    · exact hsingle _ _ _ h
    · obtain ⟨shown, u, -, hrefuse⟩ := Action.execute_bind_ok h
      cases hrefuse
  · cases h

/-! ## Main statement -/

/-- The kept and the dropped items hold each position of a list exactly once, in order. -/
def Splits (xs kept dropped : List Value) : Prop :=
  ∃ held left : List Nat, held.Pairwise (· < ·) ∧ left.Pairwise (· < ·) ∧
    (held ++ left).Perm (List.range xs.length) ∧
    kept = held.filterMap (xs[·]?) ∧ dropped = left.filterMap (xs[·]?)

theorem splits_pick (keep : Nat → Bool) (xs : List Value) :
    Splits xs (pick keep xs) (pick (!keep ·) xs) := by
  refine ⟨_, _, ?_, ?_, ?_, rfl, rfl⟩
  · exact List.pairwise_lt_range.filter _
  · exact List.pairwise_lt_range.filter _
  · exact List.filter_append_perm keep (List.range xs.length)

/-- The methods that take a query come to the same selection. -/
structure Agreement (caller : Caller) (a : Address) (spec : Value) (xs kept dropped : List Value)
    (s : State) : Prop where
  splits : Splits xs kept dropped
  filter : Gives (filter caller a spec) kept s
  except : Gives (except caller a spec) dropped s
  partition : ∃ v t b d p q, (partition caller a spec).execute s = (.ok (.ref v), t) ∧
    t.store.cell? v = some (.tuple [.ref p, .ref q]) ∧ t.store.Holds p b kept ∧
    t.store.Holds q d dropped
  delete : ∃ d t, (delete caller a spec).execute s = (.ok (.ref a), t) ∧ t.store.Holds a d dropped
  count : ∃ t, (count caller a spec).execute s = (.ok (.int kept.length), t)
  first : ∃ t, (first caller a spec).execute s = (.ok (kept.head?.getD .null), t)
  find : ∃ t, (find caller a spec).execute s = (.ok (kept.head?.getD .null), t)
  last : ∃ t, (last caller a spec).execute s = (.ok (kept.getLast?.getD .null), t)
  every : ∃ held t, (every caller a [spec]).execute s = (.ok (.bool held), t) ∧
    (held = true ↔ kept = xs)
  /-- what `first` and `last` give of a collection of the kept items -/
  ends : ∀ b d t, t.store.Holds b d kept →
    (Collection.first caller b .null).execute t = (.ok (kept.head?.getD .null), t) ∧
      (Collection.last caller b .null).execute t = (.ok (kept.getLast?.getD .null), t)

/-- All methods that take a query come to the same selection, and so do the two that take a
shorthand: on a collection in whose `filter` and `first` no patch has put anything else, and for a
query that decides for each position whether the item there is kept.  What is kept depends on the
items and on the decisions only, so that calls made one after another agree as long as the query
still decides in the same way. -/
theorem selections_agree (hholds : s.store.Holds a c xs)
    (hfilter : c.fields.lookup Method.filter.name = none)
    (hfirst : c.fields.lookup Method.first.name = none)
    (hmarks : ∀ m ∈ s.store.marks, s.store.Knows m.1) :
    (∀ spec keep, Decides caller (.ref c.validators) spec xs keep s →
      Agreement caller a spec xs (pick keep xs) (pick (!keep ·) xs) s) ∧
    (∀ args spec keep t, (Query.ofShorthand args).execute s = (.ok spec, t) →
      Decides caller (.ref c.validators) spec xs keep t →
      Splits xs (pick keep xs) (pick (!keep ·) xs) ∧ Gives (select caller a args) (pick keep xs) s ∧
        Gives (reject caller a args) (pick (!keep ·) xs) s) := by
  refine ⟨fun spec keep h => ?_, fun args spec keep t hargs h => ?_⟩
  · have hfound := first_ok hholds h
    refine ⟨splits_pick keep xs, gives_filter hholds h, gives_except hholds hfilter h,
      partition_ok hholds h, delete_ok hholds h, count_ok hholds hfilter hmarks h, hfound, ?_,
      last_ok hholds h, every_ok hholds h, fun b d t hkept => ends_ok hkept⟩
    obtain ⟨t, hrun⟩ := hfound
    exact ⟨t, (execute_through hholds.cell hfirst _ _).trans hrun⟩
  · have ht := (grows_ofShorthand hargs).extends
    have hlater := hholds.extends ht
    refine ⟨splits_pick keep xs, (gives_filter hlater h).of_extends ht ?_,
      (gives_except hlater hfilter h).of_extends ht ?_⟩
    · unfold select
      rw [Action.execute_bind_of_ok hargs, execute_through hlater.cell hfilter]
    · unfold reject
      rw [Action.execute_bind_of_ok hargs]

/-- A predicate that holds at every second position. -/
def everySecond : Function :=
  .closure ⟨2, 0, false⟩ (.not (.binary .modulo (.arg 1) (.lit (.int 2)))) none

/-- A collection of three numbers, and a predicate. -/
def threeNumbers : State where
  store := { cells := #[
    .policy {},
    .registry {},
    .generator ⟨0⟩,
    .dict [],
    .list [.int 5, .int 6, .int 5],
    .collection
      { list := ⟨4⟩, validators := ⟨3⟩, policy := ⟨0⟩, registry := ⟨1⟩, generator := ⟨2⟩ },
    .function everySecond] }

theorem test_everySecond {t : State} (hcell : t.store.cell? ⟨6⟩ = some (.function everySecond))
    (v : Value) {i : Nat} (hi : i < 3) :
    ((Expression.predicate (.ref ⟨6⟩)).test apply v i).execute t = (.ok (i % 2 == 0), t) := by
  have harity : Callback.isNarrow t.store (.ref ⟨6⟩) 2 = false := by
    simp [Callback.isNarrow, Callback.arity, Callback.positional?, Store.view, hcell,
      Callback.functionPositional, Shape.arity, everySecond]
  rw [Expression.test]
  unfold Callback.call
  rw [bind_assoc, Action.execute_get_bind]
  dsimp only
  rw [harity, if_neg Bool.false_ne_true]
  unfold apply callDepth applyAt
  dsimp only
  rw [bind_assoc, Action.execute_bind_of_ok (Action.execute_cell hcell)]
  have hcases : i = 0 ∨ i = 1 ∨ i = 2 := by omega
  rcases hcases with rfl | rfl | rfl <;> rfl

theorem decides_everySecond :
    Decides apply (.ref ⟨3⟩) (.ref ⟨6⟩) [.int 5, .int 6, .int 5] (fun i => i % 2 == 0)
      threeNumbers := by
  intro t ht
  have hcell : t.store.cell? ⟨6⟩ = some (.function everySecond) := ht.cells ⟨6⟩ _ rfl
  refine ⟨.predicate (.ref ⟨6⟩), t, ?_, .refl t, fun u hu i hi =>
    ⟨u, test_everySecond (hu.cells _ _ hcell) _ hi, .refl u⟩⟩
  have hcallable : t.store.isCallable (.ref ⟨6⟩) = true := by
    simp [Store.isCallable, Store.view, hcell]
  show (Query.compileAt apply (.ref ⟨3⟩) (threeNumbers.store.size + 2) (.ref ⟨6⟩)).execute t = _
  rw [Query.compileAt, Action.execute_get_bind]
  dsimp only
  rw [if_pos hcallable]
  rfl

/-- The shorthand for the items that are five. -/
theorem decides_five {t : State} {spec : Value}
    (h : (Query.ofShorthand [.str "", .int 5]).execute threeNumbers = (.ok spec, t)) :
    Decides apply (.ref ⟨3⟩) spec [.int 5, .int 6, .int 5] (fun i => i != 1) t := by
  cases h
  intro u hu
  have hspec : u.store.cell? ⟨8⟩ = some (.dict [(.str "", .ref ⟨7⟩)]) := hu.cells ⟨8⟩ _ rfl
  have hclause : u.store.cell? ⟨7⟩ = some (.dict [(.str "$eq", .int 5)]) := hu.cells ⟨7⟩ _ rfl
  refine ⟨.term (.str "") .equal (.int 5), u, ?_, .refl u, fun w hw i hi => ?_⟩
  · have hoperators : (Query.operators? (.ref ⟨7⟩)).execute u =
        (.ok (some [(.str "$eq", .int 5)]), u) := by
      unfold Query.operators?
      rw [Action.execute_get_bind]
      simp only [Store.entries?, Store.view, hclause]
      rfl
    have hcompiled : (Query.compileClause apply (.ref ⟨3⟩) (.str "") (.ref ⟨7⟩)).execute u =
        (.ok (.term (.str "") .equal (.int 5)), u) := by
      unfold Query.compileClause Store.depth
      rw [Action.execute_get_bind, Query.compileClauseAt.eq_3 _ _ _ _ _ (fun p hp => by cases hp),
        Action.execute_bind_of_ok hoperators]
      rfl
    show (Query.compileAt apply (.ref ⟨3⟩) (9 + 2) (.ref ⟨8⟩)).execute u = _
    rw [Query.compileAt, Action.execute_get_bind]
    simp only [Store.isCallable, Store.entries?, Store.view, hspec]
    dsimp only [Query.compileEach]
    rw [if_neg Bool.false_ne_true, bind_assoc, bind_assoc, Action.execute_get_bind,
      if_neg (by decide), if_neg (by decide), Action.execute_bind_of_ok hcompiled]
    rfl
  · refine ⟨w, ?_, .refl w⟩
    have hcases : i = 0 ∨ i = 1 ∨ i = 2 := by
      simp at hi
      omega
    rcases hcases with rfl | rfl | rfl <;> rfl

/-- The methods agree on every second of three numbers, and on those that are five. -/
theorem selections_threeNumbers :
    Agreement apply ⟨5⟩ (.ref ⟨6⟩) [.int 5, .int 6, .int 5] [.int 5, .int 5] [.int 6] threeNumbers ∧
      Gives (select apply ⟨5⟩ [.str "", .int 5]) [.int 5, .int 5] threeNumbers ∧
      Gives (reject apply ⟨5⟩ [.str "", .int 5]) [.int 6] threeNumbers := by
  have hholds : threeNumbers.store.Holds ⟨5⟩ _ [.int 5, .int 6, .int 5] := ⟨rfl, rfl⟩
  have hmarks : ∀ m ∈ threeNumbers.store.marks, threeNumbers.store.Knows m.1 := by decide
  refine ⟨(selections_agree hholds rfl rfl hmarks).1 _ _ decides_everySecond, ?_⟩
  exact ((selections_agree hholds rfl rfl hmarks).2 _ _ _ _ rfl (decides_five rfl)).2

/-- A collection of two numbers, and a query for the candidates that an iterator gives. -/
def oneShot : State where
  store := { cells := #[
    .policy {},
    .registry {},
    .generator ⟨0⟩,
    .dict [],
    .list [.int 1, .int 2],
    .collection
      { list := ⟨4⟩, validators := ⟨3⟩, policy := ⟨0⟩, registry := ⟨1⟩, generator := ⟨2⟩ },
    .dict [(.str "", .ref ⟨7⟩)],
    .dict [(.str "$in", .ref ⟨8⟩)],
    .iterator [.int 1]] }

/-- A collection of two numbers in whose `filter` a patch has put a function that measures, and a
query for all items. -/
def patched : State where
  store := { cells := #[
    .policy {},
    .registry {},
    .generator ⟨0⟩,
    .dict [],
    .list [.int 1, .int 2],
    .collection
      { list := ⟨4⟩, validators := ⟨3⟩, policy := ⟨0⟩, registry := ⟨1⟩, generator := ⟨2⟩,
        fields := [("filter", .builtin .len)] },
    .dict []] }

/-- The items of a collection of numbers. -/
def numbersOf (v : Value) : Action (List Int) := do
  let s := (← get).store
  return ((s.collection? v).map fun c => c.items.filterMap Value.index?).getD []

/-- The iterator has nothing left for the second call, which then drops none of the items that the
first one keeps; and in place of a collection of the dropped items, the function that a patch has
put there gives the number of entries of the negated query. -/
theorem except_oneShot_patched :
    (∃ kept, ((do
        let kept ← filter apply ⟨5⟩ (.ref ⟨6⟩)
        let dropped ← except apply ⟨5⟩ (.ref ⟨6⟩)
        return (← numbersOf kept, ← numbersOf dropped)).execute oneShot).1 = .ok kept ∧
      kept = ([1], [1, 2])) ∧
    ∃ v, ((except apply ⟨5⟩ (.ref ⟨6⟩)).execute patched).1 = .ok v ∧ v.index? = some 1 := by
  decide +kernel

end Collection

end Recordset
