import Recordset.Proofs.Sorting.Merge
set_option autoImplicit false

/-!
# A sort is sorted and stable

The runs that wait on the stack are sorted, and with the elements that are still to be cut into runs
they are a stable rearrangement of the list (`Stacked`).  Each step of the sort keeps this, and in
the end one run is left.

`ensures_sortTowards` is the main statement.
-/

namespace Recordset.Sorting

variable {α ε : Type} {m : Type → Type} [Monad m] {J : Judgement m} {E : ε → Prop}
  {r : Ranking α} {D : α → Prop} {less : Less α ε m} {whole rest : List α}

/-! ## Runs that wait -/

theorem waiting_cons (run : Pending α) (runs : List (Pending α)) :
    waiting (run :: runs) = waiting runs ++ run.items := by
  simp [waiting]

theorem waiting_append (later earlier : List (Pending α)) :
    waiting (later ++ earlier) = waiting earlier ++ waiting later := by
  simp [waiting]

theorem waiting_setDepth (depth : Nat) (runs : List (Pending α)) :
    waiting (setDepth depth runs) = waiting runs := by
  cases runs <;> rfl

/-- The runs on the stack, unless a failure of a kind has stopped the work. -/
structure Stacked (r : Ranking α) (E : ε → Prop) (whole : List α) (s : Stack α ε)
    (rest : List α) : Prop where
  stable : Stable r whole (waiting s.runs ++ rest)
  sorted : s.failure = none → ∀ run ∈ s.runs, r.Sorted run.items ∧ run.items ≠ []
  failure : ∀ e, s.failure = some e → E e

/-- A stack of the same elements in the same order, of runs that are sorted as well. -/
theorem Stacked.congr {s t : Stack α ε} (h : Stacked r E whole s rest)
    (hwaiting : waiting t.runs = waiting s.runs) (hfailure : t.failure = s.failure)
    (hruns : ∀ run ∈ t.runs, ∃ other ∈ s.runs, run.items = other.items) :
    Stacked r E whole t rest := by
  refine ⟨hwaiting ▸ h.stable, fun hnone run hrun => ?_, fun e he => h.failure e (hfailure ▸ he)⟩
  obtain ⟨other, hother, hitems⟩ := hruns run hrun
  rw [hitems]
  exact h.sorted (hfailure ▸ hnone) other hother

theorem ensures_mergeNeighbours (hless : Compares J E r D less) (hD : ∀ x ∈ whole, D x)
    {threshold : Nat} (later : List (Pending α)) {earlier : List (Pending α)}
    {left right : Pending α}
    (hstable : Stable r whole (waiting (later ++ right :: left :: earlier) ++ rest))
    (hsorted : ∀ run ∈ later ++ right :: left :: earlier, r.Sorted run.items ∧ run.items ≠ []) :
    J.Ensures (mergeNeighbours less threshold later left right earlier) fun s : Stack α ε =>
      Stacked r E whole s rest ∧ s.runs.length = later.length + (earlier.length + 1) := by
  have hleft := hsorted left (by simp)
  have hright := hsorted right (by simp)
  rw [waiting_append, waiting_cons, waiting_cons] at hstable
  have hmem : ∀ x ∈ left.items ++ right.items, D x := fun x hx =>
    hD x (hstable.perm.mem_iff.mpr (by
      simp only [List.mem_append] at hx ⊢
      rcases hx with hx | hx <;> simp [hx]))
  unfold mergeNeighbours
  refine J.ensures_bind (ensures_merge hless threshold hleft.1 hright.1 hleft.2 hmem)
    fun merged h => J.ensures_pure ⟨⟨?_, fun hnone run hrun => ?_, h.failure⟩, by simp⟩
  · have hmoved := ((h.stable.append_left (waiting earlier)).append_right
      (waiting later)).append_right rest
    rw [← List.append_assoc] at hmoved
    rw [waiting_append, waiting_cons]
    exact hstable.trans hmoved
  · rcases List.mem_append.mp hrun with hlater | hrun
    · exact hsorted run (List.mem_append_left _ hlater)
    · rcases List.mem_cons.mp hrun with rfl | hearlier
      · refine ⟨h.sorted hnone, fun hnil => hleft.2 ?_⟩
        have hperm := h.stable.perm
        rw [show merged.items = [] from hnil] at hperm
        exact (List.append_eq_nil_iff.mp hperm.eq_nil).1
      · exact hsorted run (by simp [hearlier])

theorem ensures_mergeDeeper (hless : Compares J E r D less) (hD : ∀ x ∈ whole, D x)
    (depth : Nat) : ∀ (fuel : Nat) (s : Stack α ε), Stacked r E whole s rest →
      J.Ensures (mergeDeeper less depth fuel s) (Stacked r E whole · rest) := by
  intro fuel
  induction fuel with
  | zero => exact fun s h => J.ensures_pure h
  | succ fuel ih =>
    intro s h
    unfold mergeDeeper
    split
    · rename_i right left earlier hnone hruns
      split
      · have hsorted := h.sorted hnone
        have hstable := h.stable
        rw [hruns] at hsorted hstable
        exact J.ensures_bind (ensures_mergeNeighbours hless hD [] hstable hsorted)
          fun next hnext => ih next hnext.1
      · exact J.ensures_pure h
    · exact J.ensures_pure h

theorem ensures_settle (hless : Compares J E r D less) (hD : ∀ x ∈ whole, D x) (n size : Nat)
    {s : Stack α ε} (h : Stacked r E whole s rest) :
    J.Ensures (settle less n size s) (Stacked r E whole · rest) := by
  unfold settle
  split
  · exact J.ensures_pure h
  · refine J.ensures_bind (ensures_mergeDeeper hless hD _ _ s h) fun t ht =>
      J.ensures_pure (ht.congr (waiting_setDepth _ _) rfl fun run hrun => ?_)
    cases hruns : t.runs with
    | nil =>
      rw [hruns] at hrun
      cases hrun
    | cons last earlier =>
      rw [hruns] at hrun
      rcases List.mem_cons.mp hrun with rfl | hrun
      · exact ⟨last, List.mem_cons_self, rfl⟩
      · exact ⟨run, List.mem_cons_of_mem last hrun, rfl⟩

/-- Merging all runs leaves one of them. -/
theorem ensures_mergeAll (hless : Compares J E r D less) (hD : ∀ x ∈ whole, D x) :
    ∀ (fuel : Nat) (s : Stack α ε), s.runs.length ≤ fuel → Stacked r E whole s rest →
      J.Ensures (mergeAll less fuel s) fun t =>
        Stacked r E whole t rest ∧ (t.failure = none → t.runs.length ≤ 1) := by
  intro fuel
  induction fuel with
  | zero => exact fun s hfuel h => J.ensures_pure ⟨h, fun _ => Nat.le_succ_of_le hfuel⟩
  | succ fuel ih =>
    intro s hfuel h
    unfold mergeAll
    split
    · rename_i last right left earlier hnone hruns
      have hsorted := h.sorted hnone
      have hstable := h.stable
      rw [hruns] at hsorted hstable hfuel
      simp only [List.length_cons] at hfuel
      split
      · refine J.ensures_bind (ensures_mergeNeighbours hless hD [last] hstable hsorted)
          fun next hnext => ih next ?_ hnext.1
        simp only [hnext.2, List.length_singleton]
        omega
      · refine J.ensures_bind (ensures_mergeNeighbours hless hD [] hstable hsorted)
          fun next hnext => ih next ?_ hnext.1
        simp only [hnext.2, List.length_nil, List.length_cons]
        omega
    · rename_i right left hnone hruns
      have hsorted := h.sorted hnone
      have hstable := h.stable
      rw [hruns] at hsorted hstable
      exact J.ensures_imp (ensures_mergeNeighbours hless hD [] hstable hsorted)
        fun t ht => ⟨ht.1, fun _ => Nat.le_of_eq ht.2⟩
    · rename_i hmore htwo
      refine J.ensures_pure ⟨h, fun hnone => ?_⟩
      match hruns : s.runs with
      | [] => exact Nat.zero_le 1
      | [_] => exact Nat.le_refl 1
      | [right, left] => exact (htwo right left hnone hruns).elim
      | last :: right :: left :: earlier => exact (hmore last right left earlier hnone hruns).elim

/-! ## The whole sort -/

theorem ensures_sortRuns (hless : Compares J E r D less) (hD : ∀ x ∈ whole, D x) (n least : Nat) :
    ∀ (fuel : Nat) (s : Stack α ε) (xs : List α), xs.length < fuel → s.failure = none →
      Stacked r E whole s xs →
      J.Ensures (sortRuns less n least fuel s xs) fun result =>
        Settles r E whole result.1 result.2 := by
  intro fuel
  induction fuel with
  | zero => exact fun s xs hfuel _ _ => absurd hfuel (Nat.not_lt_zero _)
  | succ fuel ih =>
    intro s xs hfuel hnone h
    unfold sortRuns
    split
    · rename_i hempty
      rw [List.isEmpty_iff.mp hempty] at h
      refine J.ensures_bind (ensures_mergeAll hless hD _ s (Nat.le_refl _) h)
        fun t ht => J.ensures_pure ⟨by simpa using ht.1.stable, fun hdone => ?_, ht.1.failure⟩
      have hsorted := ht.1.sorted hdone
      have hlength := ht.2 hdone
      match hruns : t.runs with
      | [] => exact List.Pairwise.nil
      | [run] =>
        rw [hruns] at hsorted
        simpa [waiting] using (hsorted run List.mem_cons_self).1
      | _ :: _ :: _ =>
        rw [hruns] at hlength
        simp at hlength
    · rename_i hsome
      have hxs : xs ≠ [] := fun hnil => hsome (List.isEmpty_iff.mpr hnil)
      have hmem : ∀ x ∈ xs, D x := fun x hx =>
        hD x (h.stable.perm.mem_iff.mpr (List.mem_append_right _ hx))
      refine J.ensures_bind (ensures_nextRun hless least hmem) fun next hnext => ?_
      obtain ⟨⟨run, failure⟩, rest⟩ := next
      obtain ⟨hstable, hrun, hfailure⟩ := hnext
      dsimp only at hstable hrun hfailure ⊢
      cases failure with
      | some e =>
        refine J.ensures_pure (.of_failure ?_ (hfailure e rfl))
        rw [List.append_assoc]
        exact h.stable.trans (hstable.append_left _)
      | none =>
        obtain ⟨hsorted, hne⟩ := hrun rfl
        refine J.ensures_bind (ensures_settle hless hD n run.length h) fun t ht => ?_
        have hwhole := ht.stable.trans (hstable.append_left (waiting t.runs))
        rw [← List.append_assoc] at hwhole
        split
        · rename_i e he
          exact J.ensures_pure (.of_failure hwhole (ht.failure e he))
        · rename_i hnone
          have hlength := hstable.perm.length_eq
          have hpos := List.length_pos_iff.mpr (hne hxs)
          rw [List.length_append] at hlength
          refine ih _ rest (by omega) hnone ⟨by rwa [waiting_cons], fun _ other hother => ?_,
            ht.failure⟩
          rcases List.mem_cons.mp hother with rfl | hother
          · exact ⟨hsorted, hne hxs⟩
          · exact ht.sorted hnone other hother

theorem ensures_sort (hless : Compares J E r D less) {xs : List α} (hD : ∀ x ∈ xs, D x) :
    J.Ensures (sort less xs) fun result => Settles r E xs result.1 result.2 := by
  unfold sort
  dsimp only
  split
  · rename_i hshort
    refine J.ensures_pure (.of_sorted (.refl xs) ?_)
    match xs with
    | [] => exact List.Pairwise.nil
    | [x] => exact List.pairwise_singleton _ _
    | _ :: _ :: _ =>
      simp only [List.length_cons] at hshort
      omega
  · exact ensures_sortRuns hless hD _ _ _ _ xs (Nat.lt_succ_self _) rfl
      ⟨by simpa [waiting] using Stable.refl xs, (fun _ _ h => by cases h), fun _ h => by cases h⟩

/-- The order of a sort in one of the two directions. -/
def Ranking.towards (r : Ranking α) (descending : Bool) : Ranking α :=
  if descending then r.flip else r

/-- A sort by a comparison that answers by a ranking rearranges the list stably, in both directions,
and sorts it unless a comparison fails. -/
theorem ensures_sortTowards (hless : Compares J E r D less) (descending : Bool) {xs : List α}
    (hD : ∀ x ∈ xs, D x) :
    J.Ensures (sortTowards less descending xs) fun result =>
      Settles (r.towards descending) E xs result.1 result.2 := by
  unfold sortTowards Ranking.towards
  cases descending with
  | false => exact ensures_sort hless hD
  | true =>
    refine J.ensures_bind (ensures_sort hless fun x hx => hD x (List.mem_reverse.mp hx))
      fun result h => J.ensures_pure (.of_flip ?_)
    rw [List.reverse_reverse]
    exact h

end Recordset.Sorting
