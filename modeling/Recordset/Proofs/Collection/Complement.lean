import Recordset.Proofs.Collection.Conditions
import Recordset.Proofs.Collection.KeyOrder
import Recordset.Proofs.Query.Equal
set_option autoImplicit false

/-!
# Inequality is the complement of equality

A shorthand with the sign for inequality keeps the items that the shorthand with the sign for
equality drops, and so does its negation.  The calls need not be made one right after another: what
they answer for an item depends on the item and the operand only, both of which had been made
before.  Where the path breaks at an item, all of them fail in the same way.

`Collection.select_complement` is the main statement.
-/

namespace Recordset

open Recordset.Action

namespace Action

variable {α : Type}

/-- An answer that is turned around is drawn as the answer is drawn. -/
theorem drawing_not (x : Action Bool) :
    Collection.drawing (do return !(← x)) = (do return !(← Collection.drawing x)) := by
  refine ext_execute fun s => ?_
  unfold Collection.drawing
  rw [execute_tryCatch, execute_bind, execute_bind, execute_tryCatch]
  cases x.execute s with
  | mk r t =>
    cases r with
    | ok b => rfl
    | error e =>
      dsimp only
      split <;> rfl

/-- Where two actions end in the same way, they do so when what they give is drawn. -/
theorem together_drawing {t₁ t₂ : State} {x y : Action α} {R : Store → Store → α → α → Prop}
    (h : Together t₁ t₂ x y R) :
    Together t₁ t₂ (Collection.drawing x) (Collection.drawing y) R := by
  unfold Collection.drawing
  cases h with
  | given hx hy hu₁ hu₂ hsize h =>
    refine .given ?_ ?_ hu₁ hu₂ hsize h
    · rw [execute_tryCatch, hx]
    · rw [execute_tryCatch, hy]
  | @failed e u₁ u₂ hx hy hu₁ hu₂ =>
    have hfails : ∀ {z : Action α} {t u : State}, z.execute t = (.error e, u) →
        (tryCatch z fun e => if e.endsIteration then fault .runtime else throw e).execute t =
          (.error (if e.endsIteration then .fault .runtime else e), u) := by
      intro z t u hz
      rw [execute_tryCatch, hz]
      dsimp only
      split <;> rfl
    exact .failed (hfails hx) (hfails hy) hu₁ hu₂

end Action

namespace Collection

variable {caller : Caller} {a : Address} {c : Collection} {xs : List Value}
  {s t t₁ t₂ t₃ : State} {path : String} {v item : Value}

/-! ## Answers for all items -/

/-- The first item is picked when the first position is kept, and the others by the next
positions. -/
theorem pick_cons (keep : Nat → Bool) (x : Value) (xs : List Value) :
    pick keep (x :: xs) =
      if keep 0 then x :: pick (fun i => keep (i + 1)) xs else pick (fun i => keep (i + 1)) xs := by
  unfold pick picked
  rw [List.length_cons, List.range_succ_eq_map, List.filter_cons, List.filter_map]
  split <;> simp [List.filterMap_map, Function.comp_def]

/-- Filtering picks by the answers for all items, and filtering by the opposite picks the others. -/
theorem filterM_of_mapM {p : Value → Action Bool} :
    ∀ {xs : List Value} {answers : List Bool} {s t : State},
      (xs.mapM p).execute s = (.ok answers, t) →
      (xs.filterM p).execute s = (.ok (pick (answers[·]?.getD false) xs), t) ∧
      (xs.filterM fun x => do return !(← p x)).execute s =
        (.ok (pick (fun i => !answers[i]?.getD false) xs), t) := by
  intro xs
  induction xs with
  | nil =>
    intro answers s t h
    cases h
    exact ⟨rfl, rfl⟩
  | cons x xs ih =>
    intro answers s t h
    rw [List.mapM_cons] at h
    obtain ⟨b, u, hx, h⟩ := execute_bind_ok h
    obtain ⟨rest, w, hrest, h⟩ := execute_bind_ok h
    cases h
    obtain ⟨hkept, hdropped⟩ := ih hrest
    rw [filterM_cons, filterM_cons, pick_cons, pick_cons, bind_assoc]
    constructor
    · rw [execute_bind_of_ok hx, execute_bind_of_ok hkept]
      rfl
    · rw [execute_bind_of_ok hx, pure_bind, execute_bind_of_ok hdropped]
      rfl

/-- Where there is no answer for an item, filtering fails, by the opposite as well. -/
theorem filterM_of_mapM_error {p : Value → Action Bool} {e : Error} :
    ∀ {xs : List Value} {s t : State}, (xs.mapM p).execute s = (.error e, t) →
      (xs.filterM p).execute s = (.error e, t) ∧
      (xs.filterM fun x => do return !(← p x)).execute s = (.error e, t) := by
  intro xs
  induction xs with
  | nil => exact fun h => by cases h
  | cons x xs ih =>
    intro s t h
    rw [List.mapM_cons] at h
    rw [filterM_cons, filterM_cons, bind_assoc]
    rcases execute_bind_cases h with ⟨_, ⟨⟩, hx⟩ | ⟨b, u, hx, h⟩
    · exact ⟨execute_bind_of_error hx, execute_bind_of_error hx⟩
    · rcases execute_bind_cases h with ⟨_, ⟨⟩, hrest⟩ | ⟨rest, w, _, h⟩
      · obtain ⟨hkept, hdropped⟩ := ih hrest
        rw [execute_bind_of_ok hx, execute_bind_of_ok hx, pure_bind]
        exact ⟨execute_bind_of_error hkept, execute_bind_of_error hdropped⟩
      · cases h

/-- The answers for all items are there when the path does not break. -/
theorem mapM_satisfies_ok (path : String) (v : Value) :
    ∀ {xs : List Value} {s : State}, Path.Unbroken s xs (.str path) →
      ∃ answers t, (xs.mapM (satisfies path .equal v)).execute s = (.ok answers, t) := by
  intro xs
  induction xs with
  | nil => exact fun {s} _ => ⟨[], s, rfl⟩
  | cons x xs ih =>
    intro s hunbroken
    obtain ⟨found, t, hfound⟩ := hunbroken.value_ok (.refl s) List.mem_cons_self
    have hx : (satisfies path .equal v x).execute s =
        (.ok (Operator.strictEqual t.store found v), t) :=
      execute_drawing (execute_bind_of_ok hfound)
    have ht : s.Extends t := (obeys_satisfies path .equal v x).of_execute hx
    obtain ⟨rest, u, hrest⟩ := ih fun w hw y hy =>
      hunbroken.extends ht w hw y (List.mem_cons_of_mem x hy)
    refine ⟨Operator.strictEqual t.store found v :: rest, u, ?_⟩
    rw [List.mapM_cons, execute_bind_of_ok hx, execute_bind_of_ok hrest]
    rfl

section

variable (h₁ : s.Later t₁) (h₂ : s.Later t₂) (hwhole : s.Whole) (hroot : s.store.Rooted)

include hwhole hroot

include h₁ h₂ in
/-- Whether the value at a path equals an operand is answered in the same way in two later
states. -/
theorem satisfies_equal_together (path : String) (hitem : s.Made item) (hv : s.Made v)
    (hbound : t₁.store.size = t₂.store.size ∨ s.store.Ends v) :
    Together t₁ t₂ (satisfies path .equal v item) (satisfies path .equal v item)
      fun _ _ b d => b = d := by
  refine together_drawing (together_bind (Path.value_together h₁ h₂ hwhole hroot hitem path) ?_)
  intro x y u₁ u₂ hu₁ hu₂ hsize halike
  have hbound' : u₁.store.size = u₂.store.size ∨ s.store.Ends v :=
    hbound.imp_left fun hsame => by omega
  have hanswer := halike.strictEqual (h₁.trans hu₁) (h₂.trans hu₂) hwhole hv hbound'
  exact .given rfl rfl (.refl u₁) (.refl u₂) (Nat.add_comm _ _) hanswer

/-- The answers for all items are the same in two later states. -/
theorem mapM_satisfies_equal (path : String) (hv : s.Made v) :
    ∀ {xs : List Value} {t₁ t₂ : State}, (∀ x ∈ xs, s.Made x) → s.Later t₁ → s.Later t₂ →
      (t₁.store.size = t₂.store.size ∨ s.store.Ends v) →
      Together t₁ t₂ (xs.mapM (satisfies path .equal v)) (xs.mapM (satisfies path .equal v))
        fun _ _ bs ds => bs = ds := by
  intro xs
  induction xs with
  | nil => exact fun _ _ _ _ => together_pure rfl
  | cons x xs ih =>
    intro t₁ t₂ hxs h₁ h₂ hbound
    rw [List.mapM_cons]
    refine together_bind (satisfies_equal_together h₁ h₂ hwhole hroot path
      (hxs x List.mem_cons_self) hv hbound) ?_
    rintro b _ u₁ u₂ hu₁ hu₂ hsize rfl
    refine together_bind (ih (fun y hy => hxs y (List.mem_cons_of_mem x hy)) (h₁.trans hu₁)
      (h₂.trans hu₂) (hbound.imp_left fun hsame => by omega)) ?_
    rintro rest _ w₁ w₂ _ _ _ rfl
    exact together_pure rfl

end

/-! ## The three shorthands -/

/-- An action gives a new collection over the items of a list, and leaves a state that comes
later. -/
def Selects (x : Action Value) (ys : List Value) (s : State) : Prop :=
  Gives x ys s ∧ s.Later (x.execute s).2

/-- What filtering keeps is selected when an action does nothing else but making queries before. -/
theorem selects_of_filter {x : Action Value} {filter : Action (List Value)} {ys : List Value}
    {t u : State} (hholds : s.store.Holds a c xs) (ht : s.Later t)
    (hrun : x.execute s = (do derived a (← filter)).execute t)
    (hfilter : filter.execute t = (.ok ys, u)) (hu : t.Later u) : Selects x ys s := by
  have hlater := ht.trans hu
  have hcell := (hholds.extends hlater.grows.extends).cell
  have hx : x.execute s = (derived a ys).execute u := by
    rw [hrun, execute_bind_of_ok hfilter]
  refine ⟨(gives_derived hcell ys).of_extends hlater.grows.extends hx, ?_⟩
  rw [hx, execute_derived hcell]
  exact hlater.trans ((u.later_alloc (.list ys)).trans (State.later_alloc _ _))

/-- An action fails when filtering does, and nothing but making queries comes before. -/
theorem fails_of_filter {x : Action Value} {filter : Action (List Value)} {e : Error} {t u : State}
    (hrun : x.execute s = (do derived a (← filter)).execute t)
    (hfilter : filter.execute t = (.error e, u)) : ∃ w, x.execute s = (.error e, w) :=
  ⟨u, hrun.trans (execute_bind_of_error hfilter)⟩

/-- Testing for the negation of an equality is the opposite of testing for the equality. -/
theorem drawing_test_not_term (item : Value) (i : Int) :
    drawing (Expression.test caller item i (.not (.term (.str path) .equal v))) =
      (do return !(← satisfies path .equal v item)) := by
  rw [Expression.test, drawing_not, drawing_test_term]

theorem obeys_not_satisfies (path : String) (v item : Value) :
    Obeys State.Extends (do return !(← satisfies path .equal v item)) :=
  obeys_bind (obeys_satisfies path .equal v item) fun _ => obeys_pure _

/-- The items that match the negation of an equality are those that do not satisfy the equality. -/
theorem execute_matching_not (hholds : s.store.Holds a c xs) :
    (matching caller (.not (.term (.str path) .equal v)) a).execute s =
      (xs.filterM fun item => do return !(← satisfies path .equal v item)).execute s :=
  execute_matching ⟨c, hholds⟩ drawing_test_not_term (obeys_not_satisfies path v)

section

variable (hholds : s.store.Holds a c xs) (hown : c.fields.lookup Method.filter.name = none)
  (hpath : Query.isOperatorName path = false)

include hholds hown hpath

/-- The sign for inequality negates what the operand says as a clause. -/
theorem execute_select_unequal (caller : Caller) (w : Value) :
    ∃ t, s.Later t ∧ t.store.size = s.store.size + 2 ∧
      (select caller a [.str path, .str "!=", w]).execute s =
        (do
          let e ← Query.compileClauseAt caller (.ref c.validators) (.str path) (s.store.size + 3) w
          derived a (← matching caller (.not e) a)).execute t := by
  obtain ⟨spec, t, hsingle, ht, hsize, hspec⟩ :=
    Query.single_ok path Operator.negation w s
  refine ⟨t, ht, hsize, ?_⟩
  have hsign : Query.signOperator? (.str "!=") = some Operator.negation := by decide +kernel
  have hcompile : (compile caller a spec).execute t =
      (do return .not (← Query.compileClauseAt caller (.ref c.validators) (.str path)
        (s.store.size + 3) w) : Action Expression).execute t := by
    rw [execute_compile (ht.grows.cells a _ hholds.cell)]
    unfold Query.compile Store.depth
    rw [execute_get_bind, Query.execute_compileAt_unequal hspec hpath, hsize]
  rw [execute_select hholds hown, ofShorthand_of_sign hsign, execute_bind_of_ok hsingle,
    execute_bind_left hcompile, bind_assoc]
  simp only [pure_bind]

/-- On a literal it keeps the items that do not satisfy the equality. -/
theorem execute_select_notEqual (caller : Caller) (hv : s.Made v)
    (hliteral : Query.IsLiteral s.store v) :
    ∃ t, s.Later t ∧ t.store.size = s.store.size + 2 ∧
      (select caller a [.str path, .str "!=", v]).execute s =
        (do
          let kept ← xs.filterM fun item => do return !(← satisfies path .equal v item)
          derived a kept).execute t := by
  obtain ⟨t, ht, hsize, hrun⟩ := execute_select_unequal hholds hown hpath caller v
  refine ⟨t, ht, hsize, hrun.trans ?_⟩
  have hlater := hholds.extends ht.grows.extends
  rw [execute_bind_of_ok (Query.execute_compileClauseAt_literal (hliteral.later ht hv) _)]
  exact execute_bind_left (execute_matching_not hlater) _

/-- The sign for equality keeps the items that satisfy it. -/
theorem execute_select_equal (caller : Caller) (v : Value) :
    ∃ t, s.Later t ∧ t.store.size = s.store.size + 2 ∧
      (select caller a [.str path, .str "=", v]).execute s =
        (do derived a (← xs.filterM (satisfies path .equal v))).execute t := by
  obtain ⟨spec, t, hsingle, ht, hsize, -⟩ := Query.single_ok path "$eq" v s
  refine ⟨t, ht, hsize, ?_⟩
  have hsign : Query.signOperator? (.str "=") = some "$eq" := by decide +kernel
  have hop : Operator.ofSymbol? "$eq" = some .equal := by decide +kernel
  have hprepared : (prepared path "$eq" .equal v).execute s = (.ok v, t) := by
    unfold prepared
    rw [execute_bind_of_ok hsingle]
    rfl
  rw [execute_select_satisfying caller v hholds hown hsign hop hpath,
    execute_bind_of_ok hprepared]

/-- Its negation keeps the items that do not. -/
theorem execute_reject_equal (caller : Caller) (v : Value) :
    ∃ t, s.Later t ∧ t.store.size = s.store.size + 3 ∧
      (reject caller a [.str path, .str "=", v]).execute s =
        (do
          let kept ← xs.filterM fun item => do return !(← satisfies path .equal v item)
          derived a kept).execute t := by
  obtain ⟨spec, t, hsingle, ht, hsize, hspec⟩ := Query.single_ok path "$eq" v s
  obtain ⟨n, u, hmake, hu, hsize', hn⟩ := t.make_ok (.dict [(.str Operator.negation, spec)])
  have hsign : Query.signOperator? (.str "=") = some "$eq" := by decide +kernel
  have hop : Operator.ofSymbol? "$eq" = some .equal := by decide +kernel
  have hlater := hholds.extends (ht.trans hu).grows.extends
  have hcompile : (compile caller a (.ref n)).execute u =
      (.ok (.not (.term (.str path) .equal v)), u) := by
    have hterm := hspec.grows hu.grows
    obtain ⟨q, r, rfl, hr, -⟩ := hspec
    rw [execute_compile hlater.cell]
    unfold Query.compile Store.depth
    rw [execute_get_bind, Query.execute_compileAt_negation hn (hu.grows.cells _ _ hr),
      execute_bind, Query.execute_compileAt_term hterm hpath hop]
    rfl
  refine ⟨u, ht.trans hu, by omega, ?_⟩
  unfold reject
  rw [ofShorthand_of_sign hsign, execute_bind_of_ok hsingle]
  unfold except
  rw [execute_bind_of_ok hmake, execute_through hlater.cell hown]
  unfold filter
  rw [execute_bind_of_ok hcompile]
  exact execute_bind_left (execute_matching_not hlater) _

end

/-! ## Main statement -/

/-- For a literal, the sign for inequality keeps the items that the sign for equality drops, and so
does the negated shorthand.  The calls are made from any states that come later than one in which
the collection, its items and the literal were there.  Where the path breaks at an item, all three
calls fail in the same way.  A literal that holds itself is compared within a bound on the nesting
that the number of cells gives; the calls then have to be made within the same bound. -/
theorem select_complement (hholds : s.store.Holds a c xs)
    (hown : c.fields.lookup Method.filter.name = none) (hwhole : s.Whole)
    (hroot : s.store.Rooted) (hpath : Query.isOperatorName path = false) (hv : s.Made v)
    (hliteral : Query.IsLiteral s.store v) (h₁ : s.Later t₁) (h₂ : s.Later t₂) (h₃ : s.Later t₃)
    (hbound : s.store.Ends v ∨
      t₁.store.size = t₂.store.size ∧ t₁.store.size = t₃.store.size + 1) :
    (∃ kept dropped, Splits xs kept dropped ∧
      Selects (select caller a [.str path, .str "=", v]) kept t₁ ∧
      Selects (select caller a [.str path, .str "!=", v]) dropped t₂ ∧
      Selects (reject caller a [.str path, .str "=", v]) dropped t₃) ∨
    ¬ Path.Unbroken s xs (.str path) ∧ ∃ e,
      (∃ u, (select caller a [.str path, .str "=", v]).execute t₁ = (.error e, u)) ∧
      (∃ u, (select caller a [.str path, .str "!=", v]).execute t₂ = (.error e, u)) ∧
      ∃ u, (reject caller a [.str path, .str "=", v]).execute t₃ = (.error e, u) := by
  have hlater : ∀ {t : State}, s.Later t → t.store.Holds a c xs := fun ht =>
    hholds.extends ht.grows.extends
  have hxs : ∀ x ∈ xs, s.Made x := fun x hx => hwhole.made_of_cell? hholds.list hx
  have hmade : ∀ {t : State}, s.Later t → t.Made v := fun ht => ht.made hv
  obtain ⟨u₁, hu₁, hsize₁, hequal⟩ :=
    execute_select_equal (hlater h₁) hown hpath caller v
  obtain ⟨u₂, hu₂, hsize₂, hunequal⟩ := execute_select_notEqual (hlater h₂) hown hpath
    caller (hmade h₂) (hliteral.later h₂ hv)
  obtain ⟨u₃, hu₃, hsize₃, hnegated⟩ :=
    execute_reject_equal (hlater h₃) hown hpath caller v
  have hbound₂ : u₁.store.size = u₂.store.size ∨ s.store.Ends v :=
    hbound.symm.imp_left fun h => by omega
  have hbound₃ : u₁.store.size = u₃.store.size ∨ s.store.Ends v :=
    hbound.symm.imp_left fun h => by omega
  cases mapM_satisfies_equal hwhole hroot path hv hxs (h₁.trans hu₁) (h₂.trans hu₂) hbound₂ with
  | @given answers _ _ _ hrun₁ hrun₂ hw₁ hw₂ _ hsame =>
    cases mapM_satisfies_equal hwhole hroot path hv hxs (h₁.trans hu₁) (h₃.trans hu₃) hbound₃ with
    | failed hrun₁' => cases hrun₁.symm.trans hrun₁'
    | given hrun₁' hrun₃ _ hw₃ _ hsame' =>
      cases hrun₁.symm.trans hrun₁'
      subst hsame hsame'
      refine .inl ⟨_, _, splits_pick (answers[·]?.getD false) xs, ?_, ?_, ?_⟩
      · exact selects_of_filter (hlater h₁) hu₁ hequal (filterM_of_mapM hrun₁).1 hw₁
      · exact selects_of_filter (hlater h₂) hu₂ hunequal (filterM_of_mapM hrun₂).2 hw₂
      · exact selects_of_filter (hlater h₃) hu₃ hnegated (filterM_of_mapM hrun₃).2 hw₃
  | @failed e _ _ hrun₁ hrun₂ =>
    cases mapM_satisfies_equal hwhole hroot path hv hxs (h₁.trans hu₁) (h₃.trans hu₃) hbound₃ with
    | given hrun₁' => cases hrun₁.symm.trans hrun₁'
    | failed hrun₁' hrun₃ =>
      cases hrun₁.symm.trans hrun₁'
      refine .inr ⟨fun hunbroken => ?_, e, ?_, ?_, ?_⟩
      · obtain ⟨answers, u, hok⟩ :=
          mapM_satisfies_ok path v (hunbroken.extends (h₁.trans hu₁).grows.extends)
        cases hok.symm.trans hrun₁
      · exact fails_of_filter hequal (filterM_of_mapM_error hrun₁).1
      · exact fails_of_filter hunequal (filterM_of_mapM_error hrun₂).2
      · exact fails_of_filter hnegated (filterM_of_mapM_error hrun₃).2

theorem threeNumbers_whole : threeNumbers.Whole :=
  ⟨by decide, by decide, by decide⟩

theorem threeNumbers_rooted : threeNumbers.store.Rooted :=
  Store.rooted_of_no_parent (by simp [threeNumbers])

/-- Of three numbers, those that are not five are those that are left by those that are five. -/
theorem select_fives :
    ∃ kept dropped, Splits [.int 5, .int 6, .int 5] kept dropped ∧
      Selects (select apply ⟨5⟩ [.str "", .str "=", .int 5]) kept threeNumbers ∧
      Selects (select apply ⟨5⟩ [.str "", .str "!=", .int 5]) dropped threeNumbers ∧
      Selects (reject apply ⟨5⟩ [.str "", .str "=", .int 5]) dropped threeNumbers := by
  have hholds : threeNumbers.store.Holds ⟨5⟩ _ [.int 5, .int 6, .int 5] := ⟨rfl, rfl⟩
  have hliteral : Query.IsLiteral threeNumbers.store (.int 5) := by
    constructor
    · rintro p hp
      cases hp
    · rintro es hes
      cases hes
  have hends : threeNumbers.store.Ends (.int 5) := by
    refine ⟨_, ?_⟩
    rintro w ⟨c, hc, -⟩
    cases hc
  have hmade : threeNumbers.Made (.int 5) := trivial
  rcases @select_complement apply _ _ _ _ _ _ _ "" _ hholds rfl threeNumbers_whole
    threeNumbers_rooted (by decide +kernel) hmade hliteral (.refl _) (.refl _) (.refl _)
    (.inl hends) with hselects | ⟨hbroken, -⟩
  · exact hselects
  · exact absurd (Path.unbroken_itself _ _) hbroken

/-- A pattern and a mapping from an operator are values that no item equals, but clauses that some
items satisfy: the sign for inequality does not keep all that the sign for equality drops.  And in
place of a collection, the function that a patch has put there gives the number of entries of the
query. -/
theorem select_clauses_patched :
    (∃ sizes, ((do
        match Pattern.compile? "x" false with
        | some pattern => do
          let equal ← select apply ⟨5⟩ [.str "", .str "=", .pattern pattern]
          let unequal ← select apply ⟨5⟩ [.str "", .str "!=", .pattern pattern]
          let negated ← reject apply ⟨5⟩ [.str "", .str "=", .pattern pattern]
          [equal, unequal, negated].mapM fun v => Action.look (Store.length · v)
        | none => Action.fault .type).execute
          (holding [.str "x", .str "y"] everySecond)).1 = .ok sizes ∧ sizes = [0, 1, 2]) ∧
    (∃ kept, ((do
        let clause ← Action.make (.dict [(.str "$gt", .int 5)])
        let equal ← select apply ⟨5⟩ [.str "", .str "=", clause]
        let unequal ← select apply ⟨5⟩ [.str "", .str "!=", clause]
        let negated ← reject apply ⟨5⟩ [.str "", .str "=", clause]
        return (← numbersOf equal, ← numbersOf unequal, ← numbersOf negated)).execute
          threeNumbers).1 = .ok kept ∧ kept = ([], [5, 5], [5, 6, 5])) ∧
    ∃ v, ((select apply ⟨5⟩ [.str "", .str "!=", .int 1]).execute patched).1 = .ok v ∧
      v.index? = some 1 := by
  decide +kernel

end Collection

end Recordset
