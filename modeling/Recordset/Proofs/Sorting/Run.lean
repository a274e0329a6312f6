import Recordset.Proofs.Sorting.Search
set_option autoImplicit false

/-!
# Runs are sorted and stable

What is done to make a run rearranges the elements stably, and the run is sorted unless a comparison
fails (`Settles`).
-/

namespace Recordset.Sorting

variable {α ε : Type} {m : Type → Type} [Monad m] {J : Judgement m} {E : ε → Prop}
  {r : Ranking α} {D : α → Prop} {less : Less α ε m} {xs ys zs : List α} {x : α}

/-- A list is rearranged stably, and sorted unless a failure of a kind has stopped the work. -/
structure Settles (r : Ranking α) (E : ε → Prop) (xs ys : List α) (failure : Option ε) : Prop where
  stable : Stable r xs ys
  sorted : failure = none → r.Sorted ys
  failure : ∀ e, failure = some e → E e

theorem Settles.of_sorted (hstable : Stable r xs ys) (hsorted : r.Sorted ys) :
    Settles r E xs ys none :=
  ⟨hstable, fun _ => hsorted, fun _ h => by cases h⟩

theorem Settles.of_failure (hstable : Stable r xs ys) {e : ε} (he : E e) :
    Settles r E xs ys (some e) :=
  ⟨hstable, (fun h => by cases h), fun _ h => by cases h; exact he⟩

/-- A sorted list with an element at its place. -/
theorem sorted_insert {n : Nat} (hsorted : r.Sorted xs)
    (h : Cuts (r.fits · x) (r.before x) xs n) : r.Sorted (xs.take n ++ x :: xs.drop n) := by
  have hparts := Ranking.sorted_append.mp ((List.take_append_drop n xs).symm ▸ hsorted)
  refine Ranking.sorted_append.mpr ⟨hparts.1, Ranking.sorted_cons.mpr ⟨?_, hparts.2.1⟩, ?_⟩
  · exact fun y hy => r.fits_of_before (h.back y hy)
  · intro y hy z hz
    rcases List.mem_cons.mp hz with rfl | hz
    · exact h.front y hy
    · exact hparts.2.2 y hy z hz

/-- An element moves from the end of a list to its place. -/
theorem stable_insert {n : Nat} (h : Cuts (r.fits · x) (r.before x) xs n) :
    Stable r (xs ++ [x]) (xs.take n ++ x :: xs.drop n) := by
  have hmoved : Stable r (xs.drop n ++ [x]) ([x] ++ xs.drop n) :=
    .exchange fun y hy z hz => by
      rw [List.mem_singleton.mp hz]
      exact h.back y hy
  have hwhole := hmoved.append_left (xs.take n)
  rwa [← List.append_assoc, List.take_append_drop] at hwhole

/-- Inserting elements into a sorted list. -/
theorem ensures_insertAll (hless : Compares J E r D less) :
    ∀ rest xs : List α, r.Sorted xs → (∀ y ∈ xs ++ rest, D y) →
      J.Ensures (insertAll less xs rest) fun result =>
        Settles r E (xs ++ rest) result.1 result.2 := by
  intro rest
  induction rest with
  | nil =>
    intro xs hsorted hD
    rw [List.append_nil]
    exact J.ensures_pure (.of_sorted (.refl xs) hsorted)
  | cons x rest ih =>
    intro xs hsorted hD
    have hx : D x := hD x (by simp)
    have hxs : ∀ y ∈ xs, D y := fun y hy => hD y (by simp [hy])
    unfold insertAll
    refine Judgement.ensures_bind_run (gives_placeOf hless hsorted hx hxs) (fun n hn => ?_)
      fun e he => J.ensures_pure (.of_failure (.refl _) he)
    have hplaced := stable_insert hn
    have hmem : ∀ y ∈ (xs.take n ++ x :: xs.drop n) ++ rest, D y := fun y hy =>
      hD y (by simpa using (hplaced.append_right rest).perm.mem_iff.mpr hy)
    refine J.ensures_imp (ih _ (sorted_insert hsorted hn) hmem) fun result h => ?_
    refine ⟨?_, h.sorted, h.failure⟩
    have hfirst := hplaced.append_right rest
    rw [List.append_assoc, List.singleton_append] at hfirst
    exact hfirst.trans h.stable

/-- How an element of a run stands to a later one. -/
def Goes (r : Ranking α) (descending : Bool) (y z : α) : Prop :=
  if descending then r.before z y else r.fits y z

theorem Goes.trans {descending : Bool} {x y z : α} (hxy : Goes r descending x y)
    (hyz : Goes r descending y z) : Goes r descending x z := by
  cases descending with
  | true => exact r.before_of_before_of_fits hyz (r.fits_of_before hxy)
  | false => exact r.fits_trans hxy hyz

/-- The answer about two neighbours tells how the second stands to the first. -/
theorem goes_of_compares {b : Bool} {x y : α}
    (h : (b = true → r.before y x) ∧ (b = false → r.fits x y)) : Goes r b x y := by
  cases b with
  | true => exact h.1 rfl
  | false => exact h.2 rfl

/-- The elements that go on a run all stand in one way to those in front of them. -/
theorem gives_takeRun (hless : Compares J E r D less) (descending : Bool) :
    ∀ xs last, (∀ y ∈ last :: xs, D y) →
      J.Gives E (takeRun less descending last xs) fun taken =>
        taken.1 ++ taken.2 = xs ∧ (last :: taken.1).Pairwise (Goes r descending) := by
  intro xs
  induction xs with
  | nil => exact fun last _ => Judgement.gives_pure ⟨rfl, List.pairwise_singleton _ _⟩
  | cons x xs ih =>
    intro last hD
    unfold takeRun
    refine Judgement.gives_bind (hless x last (hD x (by simp)) (hD last (by simp))) fun b hb => ?_
    split
    · rename_i hgoes
      obtain rfl : b = descending := eq_of_beq hgoes
      have hx := goes_of_compares hb
      refine Judgement.gives_bind (ih x fun y hy => hD y (List.mem_cons_of_mem _ hy))
        fun taken h => ?_
      refine Judgement.gives_pure ⟨by simp [h.1], List.pairwise_cons.mpr ⟨fun z hz => ?_, h.2⟩⟩
      rcases List.mem_cons.mp hz with rfl | hz
      · exact hx
      · exact hx.trans ((List.pairwise_cons.mp h.2).1 z hz)
    · exact Judgement.gives_pure ⟨rfl, List.pairwise_singleton _ _⟩

/-- The run at the front: a sorted list with the elements after it. -/
theorem gives_firstRun (hless : Compares J E r D less) (hxs : ∀ y ∈ xs, D y) :
    J.Gives E (firstRun less xs) fun found =>
      Stable r xs (found.1 ++ found.2) ∧ r.Sorted found.1 ∧ (xs ≠ [] → found.1 ≠ []) := by
  unfold firstRun
  split
  · rename_i x y rest
    refine Judgement.gives_bind (hless y x (hxs y (by simp)) (hxs x (by simp))) fun b hb => ?_
    have hrest : ∀ z ∈ y :: rest, D z := fun z hz => hxs z (List.mem_cons_of_mem x hz)
    refine Judgement.gives_bind (gives_takeRun hless b rest y hrest) fun taken h => ?_
    have hpairs : (x :: y :: taken.1).Pairwise (Goes r b) := by
      have hxy := goes_of_compares hb
      refine List.pairwise_cons.mpr ⟨fun z hz => ?_, h.2⟩
      rcases List.mem_cons.mp hz with rfl | hz
      · exact hxy
      · exact hxy.trans ((List.pairwise_cons.mp h.2).1 z hz)
    refine Judgement.gives_pure ?_
    cases b with
    | true =>
      have hturned := (Stable.turn hpairs).append_right taken.2
      refine ⟨by simpa [h.1] using hturned, ?_, by simp⟩
      exact List.pairwise_reverse.mpr (hpairs.imp fun hyz => r.fits_of_before hyz)
    | false => exact ⟨by simpa [h.1] using Stable.refl _, hpairs, by simp⟩
  · rename_i hshort
    refine Judgement.gives_pure ⟨by simpa using Stable.refl xs, ?_, fun h => h⟩
    rcases xs with - | ⟨x, - | ⟨y, rest⟩⟩
    · exact List.Pairwise.nil
    · exact List.pairwise_singleton _ _
    · exact absurd rfl (hshort x y rest)

/-- The next run: a part from the front is rearranged into it. -/
theorem ensures_nextRun (hless : Compares J E r D less) (least : Nat) (hxs : ∀ y ∈ xs, D y) :
    J.Ensures (nextRun less least xs) fun result =>
      Stable r xs (result.1.1 ++ result.2) ∧
        (result.1.2 = none → r.Sorted result.1.1 ∧ (xs ≠ [] → result.1.1 ≠ [])) ∧
        ∀ e, result.1.2 = some e → E e := by
  unfold nextRun
  refine Judgement.ensures_bind_run (gives_firstRun hless hxs) (fun found h => ?_) fun e he => ?_
  · obtain ⟨run, rest⟩ := found
    obtain ⟨hstable, hsorted, hne⟩ := h
    dsimp only at hstable hsorted hne ⊢
    have hmem : ∀ y ∈ run ++ rest.take (least - run.length), D y := fun y hy => by
      refine hxs y (hstable.perm.mem_iff.mpr ?_)
      rcases List.mem_append.mp hy with hy | hy
      · exact List.mem_append_left _ hy
      · exact List.mem_append_right _ (List.mem_of_mem_take hy)
    refine J.ensures_bind (ensures_insertAll hless _ run hsorted hmem) fun result hresult => ?_
    have hall := hresult.stable.append_right (rest.drop (least - run.length))
    rw [List.append_assoc, List.take_append_drop] at hall
    refine J.ensures_pure ⟨hstable.trans hall, fun hnone => ⟨hresult.sorted hnone, ?_⟩,
      hresult.failure⟩
    intro hxs hnil
    have hperm := hresult.stable.perm
    rw [hnil] at hperm
    exact hne hxs (List.append_eq_nil_iff.mp hperm.eq_nil).1
  · refine J.ensures_pure ⟨by simpa using Stable.refl xs, (fun h => by cases h), fun _ h => ?_⟩
    cases h
    exact he

end Recordset.Sorting
