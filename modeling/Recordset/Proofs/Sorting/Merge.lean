import Recordset.Proofs.Sorting.Run
set_option autoImplicit false

/-!
# Merges are sorted and stable

While two runs are merged, what is merged so far fits in front of what is left of both, and the last
element of the left run has to come after the whole right one (`Merging`).  An element or a block
goes from the left run when it fits in front of the right one, and from the right run when it has to
come before the left one.

A merge from the back is one from the front with the order and the lists turned round and the runs
exchanged.
-/

namespace Recordset.Sorting

variable {α ε : Type} {m : Type → Type} [Monad m] {J : Judgement m} {E : ε → Prop}
  {r : Ranking α} {D : α → Prop} {less : Less α ε m} {whole : List α}

/-! ## Steps of a merge -/

section

variable {done left right taken : List α} {x y : α} {xs : List α}

/-- What is merged of a list, the last element first, and what is left of two runs. -/
structure Merging (r : Ranking α) (whole done left right : List α) : Prop where
  stable : Stable r whole (done.reverse ++ left ++ right)
  ahead_left : r.Sorted (done.reverse ++ left)
  ahead_right : r.Sorted (done.reverse ++ right)
  last : ∀ x, left.getLast? = some x → ∀ y ∈ right, r.before y x

theorem Merging.mem_left (h : Merging r whole done left right) (hx : x ∈ left) : x ∈ whole :=
  h.stable.perm.mem_iff.mpr (List.mem_append_left _ (List.mem_append_right _ hx))

theorem Merging.mem_right (h : Merging r whole done left right) (hx : x ∈ right) : x ∈ whole :=
  h.stable.perm.mem_iff.mpr (List.mem_append_right _ hx)

theorem Merging.sorted_left (h : Merging r whole done left right) : r.Sorted left :=
  (Ranking.sorted_append.mp h.ahead_left).2.1

theorem Merging.sorted_right (h : Merging r whole done left right) : r.Sorted right :=
  (Ranking.sorted_append.mp h.ahead_right).2.1

/-- A block goes from the left run. -/
theorem Merging.takeLeft (h : Merging r whole done (taken ++ left) right)
    (htaken : ∀ x ∈ taken, ∀ y ∈ right, r.fits x y) :
    Merging r whole (taken.reverse ++ done) left right := by
  obtain ⟨hstable, hleft, hright, hlast⟩ := h
  rw [← List.append_assoc] at hstable hleft
  constructor
  · simpa using hstable
  · simpa using hleft
  · rw [List.reverse_append, List.reverse_reverse]
    obtain ⟨hdone, hrest, hfits⟩ := Ranking.sorted_append.mp hright
    refine Ranking.sorted_append.mpr ⟨(Ranking.sorted_append.mp hleft).1, hrest, ?_⟩
    intro x hx y hy
    rcases List.mem_append.mp hx with hx | hx
    · exact hfits x hx y hy
    · exact htaken x hx y hy
  · intro x hx
    refine hlast x ?_
    rw [List.getLast?_append, hx, Option.some_or]

/-- A block goes from the right run. -/
theorem Merging.takeRight (h : Merging r whole done left (taken ++ right))
    (htaken : ∀ y ∈ taken, ∀ x ∈ left, r.before y x) :
    Merging r whole (taken.reverse ++ done) left right := by
  obtain ⟨hstable, hleft, hright, hlast⟩ := h
  rw [← List.append_assoc] at hright
  constructor
  · have hmoved : Stable r (left ++ taken) (taken ++ left) :=
      .exchange fun x hx y hy => htaken y hy x hx
    have hwhole := (hmoved.append_left done.reverse).append_right right
    simp only [List.reverse_append, List.reverse_reverse, List.append_assoc] at hstable hwhole ⊢
    exact hstable.trans hwhole
  · rw [List.reverse_append, List.reverse_reverse]
    obtain ⟨hdone, hrest, hfits⟩ := Ranking.sorted_append.mp hleft
    refine Ranking.sorted_append.mpr ⟨(Ranking.sorted_append.mp hright).1, hrest, ?_⟩
    intro x hx y hy
    rcases List.mem_append.mp hx with hx | hx
    · exact hfits x hx y hy
    · exact r.fits_of_before (htaken x hx y hy)
  · simpa using hright
  · exact fun x hx y hy => hlast x hx y (List.mem_append_right _ hy)

theorem Merging.takeLeft_cons (h : Merging r whole done (x :: left) right)
    (hx : ∀ y ∈ right, r.fits x y) : Merging r whole (x :: done) left right := by
  have hsingle : Merging r whole done ([x] ++ left) right := h
  refine hsingle.takeLeft fun z hz => ?_
  rw [List.mem_singleton.mp hz]
  exact hx

theorem Merging.takeRight_cons (h : Merging r whole done left (y :: right))
    (hy : ∀ x ∈ left, r.before y x) : Merging r whole (y :: done) left right := by
  have hsingle : Merging r whole done left ([y] ++ right) := h
  refine hsingle.takeRight fun z hz => ?_
  rw [List.mem_singleton.mp hz]
  exact hy

theorem Merging.takeLeft_take (n : Nat) (h : Merging r whole done left right)
    (htaken : ∀ x ∈ left.take n, ∀ y ∈ right, r.fits x y) :
    Merging r whole ((left.take n).reverse ++ done) (left.drop n) right :=
  takeLeft ((List.take_append_drop n left).symm ▸ h) htaken

theorem Merging.takeRight_take (n : Nat) (h : Merging r whole done left right)
    (htaken : ∀ y ∈ right.take n, ∀ x ∈ left, r.before y x) :
    Merging r whole ((right.take n).reverse ++ done) left (right.drop n) :=
  takeRight ((List.take_append_drop n right).symm ▸ h) htaken

/-- One run is used up, or the last element of the left one is left: the rest follows. -/
theorem Merging.finish (h : Merging r whole done left right)
    (hend : left.length ≤ 1 ∨ right = []) :
    Settles r E whole
      (done.reverse ++ if left.length ≤ 1 then right ++ left else left ++ right) none := by
  split
  · rename_i hshort
    have hbefore : ∀ x ∈ left, ∀ y ∈ right, r.before y x := by
      intro x hx
      obtain ⟨z, rfl⟩ : ∃ z, left = [z] := by
        rcases left with _ | ⟨z, rest⟩
        · cases hx
        · exact ⟨z, by simpa using hshort⟩
      rw [List.mem_singleton.mp hx]
      exact h.last z rfl
    have hmoved : Stable r (left ++ right) (right ++ left) := .exchange hbefore
    have hall := hmoved.append_left done.reverse
    rw [← List.append_assoc] at hall
    refine .of_sorted (h.stable.trans hall) ?_
    rw [← List.append_assoc]
    refine Ranking.sorted_append.mpr ⟨h.ahead_right, h.sorted_left, fun y hy x hx => ?_⟩
    rcases List.mem_append.mp hy with hy | hy
    · exact (Ranking.sorted_append.mp h.ahead_left).2.2 y hy x hx
    · exact r.fits_of_before (hbefore x hx y hy)
  · rename_i hlong
    obtain rfl := hend.resolve_left hlong
    refine .of_sorted ?_ (by simpa using h.ahead_left)
    simpa using h.stable

/-- A failure leaves the rest of both runs as it is. -/
theorem Merging.fail (h : Merging r whole done left right) {e : ε} (he : E e) :
    Settles r E whole (done.reverse ++ left ++ right) (some e) :=
  .of_failure h.stable he

theorem Ranking.Sorted.before_of_head (h : r.Sorted (x :: xs)) (hyx : r.before y x) :
    ∀ z ∈ x :: xs, r.before y z := by
  intro z hz
  rcases List.mem_cons.mp hz with rfl | hz
  · exact hyx
  · exact r.before_of_before_of_fits hyx ((Ranking.sorted_cons.mp h).1 z hz)

theorem Ranking.Sorted.fits_of_head (h : r.Sorted (x :: xs)) (hyx : r.fits y x) :
    ∀ z ∈ x :: xs, r.fits y z := by
  intro z hz
  rcases List.mem_cons.mp hz with rfl | hz
  · exact hyx
  · exact r.fits_trans hyx ((Ranking.sorted_cons.mp h).1 z hz)

/-- A list without a second element. -/
theorem length_le_one {xs : List α} (h : ∀ x y rest, xs = x :: y :: rest → False) :
    xs.length ≤ 1 := by
  match xs with
  | [] => exact Nat.zero_le 1
  | [_] => exact Nat.le_refl 1
  | x :: y :: rest => exact (h x y rest rfl).elim

end

/-! ## From the front -/

theorem ensures_endForward {threshold : Nat} {done left right : List α}
    (h : Merging r whole done left right) (hend : left.length ≤ 1 ∨ right = []) :
    J.Ensures (pure (endForward threshold done left right) : m (Merged α ε))
      fun merged => Settles r E whole merged.items merged.failure :=
  J.ensures_pure (h.finish hend)

theorem ensures_failForward {threshold : Nat} {done left right : List α} {e : ε}
    (h : Merging r whole done left right) (he : E e) :
    J.Ensures (pure (failForward threshold done left right e))
      fun merged => Settles r E whole merged.items merged.failure :=
  J.ensures_pure (h.fail he)

theorem ensures_mergeForward (hless : Compares J E r D less) (hD : ∀ x ∈ whole, D x)
    (pace : Pace) (threshold : Nat) (done left right : List α)
    (h : Merging r whole done left right) :
    J.Ensures (mergeForward less pace threshold done left right)
      fun merged => Settles r E whole merged.items merged.failure := by
  induction hsize : left.length + right.length using Nat.strongRecOn
    generalizing pace threshold done left right with
  | _ size ih =>
    unfold mergeForward
    split
    · rename_i x x' xs y ys
      have hx : D x := hD x (h.mem_left List.mem_cons_self)
      have hy : D y := hD y (h.mem_right List.mem_cons_self)
      cases pace with
      | counting wonLeft wonRight =>
        refine Judgement.ensures_bind_run (hless y x hy hx) (fun b hb => ?_)
          fun e he => ensures_failForward h he
        cases b with
        | true =>
          exact ih _ (by subst hsize; simp) _ _ _ _ _
            (h.takeRight_cons (h.sorted_left.before_of_head (hb.1 rfl))) rfl
        | false =>
          exact ih _ (by subst hsize; simp) _ _ _ _ _
            (h.takeLeft_cons (h.sorted_right.fits_of_head (hb.2 rfl))) rfl
      | galloping =>
        have hleft : ∀ z ∈ x :: x' :: xs, D z := fun z hz => hD z (h.mem_left hz)
        refine Judgement.ensures_bind_run
          (gives_gallop_notBefore hless h.sorted_left hy hleft (Nat.succ_pos _))
          (fun first hfirst => ?_) fun e he => ensures_failForward h he
        have hfront := h.takeLeft_take first fun z hz =>
          h.sorted_right.fits_of_head (hfirst.front z hz)
        have hback := hfirst.back
        dsimp only
        split
        · rename_i z z' zs hdrop
          rw [hdrop] at hfront hback
          have hnext := hfront.takeRight_cons hback
          have hz : D z := hD z (hnext.mem_left List.mem_cons_self)
          split
          · rename_i hnone
            rw [List.isEmpty_iff.mp hnone] at hnext
            exact ensures_endForward hnext (.inr rfl)
          · rename_i hsome
            have hpos : 0 < ys.length := List.length_pos_iff.mpr fun h => hsome (by rw [h]; rfl)
            have hright : ∀ w ∈ ys, D w := fun w hw => hD w (hnext.mem_right hw)
            refine Judgement.ensures_bind_run
              (gives_gallop_isBefore hless hnext.sorted_right hz hright hpos)
              (fun second hsecond => ?_) fun e he => ensures_failForward hnext he
            have hlater := hnext.takeRight_take second fun w hw =>
              hnext.sorted_left.before_of_head (hsecond.front w hw)
            dsimp only
            split
            · rename_i hnone
              rw [List.isEmpty_iff.mp hnone] at hlater
              exact ensures_endForward hlater (.inr rfl)
            · have hlast := hlater.takeLeft_cons hsecond.back
              split
              · rename_i hnone
                rw [List.isEmpty_iff.mp hnone] at hlast
                exact ensures_endForward hlast (.inl (Nat.le_refl 1))
              · have hrest : (x :: x' :: xs).drop (first + 1) = z' :: zs := by
                  rw [← List.drop_drop, hdrop, List.drop_one, List.tail_cons]
                rw [← hrest] at hlast
                refine ih _ ?_ _ _ _ _ _ hlast rfl
                subst hsize
                simp only [List.length_drop, List.length_cons]
                omega
        · rename_i hshort
          exact ensures_endForward hfront (.inl (length_le_one hshort))
    · rename_i hshort
      refine ensures_endForward h ?_
      rcases right with _ | ⟨y, ys⟩
      · exact .inr rfl
      · exact .inl (length_le_one fun x x' xs hxs => hshort x x' xs y ys hxs rfl)

/-! ## From the back -/

theorem Settles.of_flip {xs ys : List α} {failure : Option ε}
    (h : Settles r.flip E xs.reverse ys.reverse failure) : Settles r E xs ys failure := by
  refine ⟨?_, fun hnone => Ranking.sorted_flip_reverse.mp (h.sorted hnone), h.failure⟩
  have hturned := h.stable.reverse
  rw [List.reverse_reverse, List.reverse_reverse] at hturned
  exact hturned

/-- A place that cuts a list turned round cuts the list. -/
theorem Cuts.of_reverse {front back : α → Prop} {xs : List α} {n : Nat}
    (h : Cuts front back xs.reverse n) : Cuts back front xs (xs.length - n) := by
  refine ⟨Nat.sub_le _ _, fun y hy => h.back y ?_, fun y hy => h.front y ?_⟩
  · rw [List.drop_reverse]
    exact List.mem_reverse.mpr hy
  · rw [List.take_reverse]
    exact List.mem_reverse.mpr hy

theorem ensures_endBackward {threshold : Nat} {done left right : List α}
    (h : Merging r.flip whole.reverse done right left) (hend : right.length ≤ 1 ∨ left = []) :
    J.Ensures (pure (endBackward threshold left right done) : m (Merged α ε))
      fun merged => Settles r E whole merged.items merged.failure := by
  refine J.ensures_pure (.of_flip ?_)
  have hend := h.finish (E := E) hend
  unfold endBackward
  rw [List.reverse_append]
  split at hend
  · rename_i hshort
    simpa [hshort] using hend
  · rename_i hlong
    simpa [hlong] using hend

theorem ensures_failBackward {threshold : Nat} {done left right : List α} {e : ε}
    (h : Merging r.flip whole.reverse done right left) (he : E e) :
    J.Ensures (pure (failBackward threshold left right done e))
      fun merged => Settles r E whole merged.items merged.failure := by
  refine J.ensures_pure (.of_flip ?_)
  simpa [failBackward] using h.fail he

theorem ensures_mergeBackward (hless : Compares J E r D less) (hD : ∀ x ∈ whole, D x)
    (pace : Pace) (threshold : Nat) (left right done : List α)
    (h : Merging r.flip whole.reverse done right left) :
    J.Ensures (mergeBackward less pace threshold left right done)
      fun merged => Settles r E whole merged.items merged.failure := by
  induction hsize : left.length + right.length using Nat.strongRecOn
    generalizing pace threshold left right done with
  | _ size ih =>
    unfold mergeBackward
    split
    · rename_i x xs y y' ys
      have hD : ∀ z ∈ whole.reverse, D z := fun z hz => hD z (List.mem_reverse.mp hz)
      have hx : D x := hD x (h.mem_right List.mem_cons_self)
      have hy : D y := hD y (h.mem_left List.mem_cons_self)
      cases pace with
      | counting wonLeft wonRight =>
        refine Judgement.ensures_bind_run (hless y x hy hx) (fun b hb => ?_)
          fun e he => ensures_failBackward h he
        cases b with
        | true =>
          exact ih _ (by subst hsize; simp) _ _ _ _ _
            (h.takeRight_cons (h.sorted_left.before_of_head (hb.1 rfl))) rfl
        | false =>
          exact ih _ (by subst hsize; simp) _ _ _ _ _
            (h.takeLeft_cons (h.sorted_right.fits_of_head (hb.2 rfl))) rfl
      | galloping =>
        have hleft : ∀ z ∈ (x :: xs).reverse, D z := fun z hz =>
          hD z (h.mem_right (List.mem_reverse.mp hz))
        have hguess : xs.length < (x :: xs).reverse.length := by simp
        have hfound := gives_gallop_notBefore hless
          (Ranking.sorted_flip_reverse.mpr h.sorted_right) hy hleft hguess
        rw [List.length_reverse, List.length_cons] at hfound
        refine Judgement.ensures_bind_run hfound (fun place hplace => ?_)
          fun e he => ensures_failBackward h he
        replace hplace := hplace.of_reverse
        rw [List.length_cons] at hplace
        have hfront := h.takeRight_take (xs.length + 1 - place) fun z hz =>
          h.sorted_left.before_of_head (hplace.front z hz)
        have hback := hplace.back
        dsimp only
        split
        · rename_i hdrop
          rw [hdrop] at hfront
          exact ensures_endBackward hfront (.inr rfl)
        · rename_i z zs hdrop
          rw [hdrop] at hfront hback
          have hnext := hfront.takeLeft_cons hback
          have hz : D z := hD z (hnext.mem_right List.mem_cons_self)
          split
          · rename_i hnone
            rw [List.isEmpty_iff.mp hnone] at hnext ⊢
            exact ensures_endBackward hnext (.inl (Nat.le_refl 1))
          · have hright : ∀ w ∈ (y' :: ys).reverse, D w := fun w hw =>
              hD w (hnext.mem_left (List.mem_reverse.mp hw))
            have hguess : ys.length < (y' :: ys).reverse.length := by simp
            have hfound := gives_gallop_isBefore hless
              (Ranking.sorted_flip_reverse.mpr hnext.sorted_left) hz hright hguess
            rw [List.length_reverse, List.length_cons] at hfound
            refine Judgement.ensures_bind_run hfound (fun place' hplace' => ?_)
              fun e he => ensures_failBackward hnext he
            replace hplace' := hplace'.of_reverse
            have hlater := hnext.takeLeft_take ((y' :: ys).length - place') fun w hw =>
              hnext.sorted_right.fits_of_head (hplace'.front w hw)
            dsimp only
            split
            · rename_i hshort
              exact ensures_endBackward hlater (.inl hshort)
            · have hlast := hlater.takeRight_cons hplace'.back
              split
              · rename_i hnone
                rw [List.isEmpty_iff.mp hnone] at hlast
                exact ensures_endBackward hlast (.inr rfl)
              · rename_i hlong _
                have hrest : xs.drop (xs.length + 1 - place) = zs := by
                  rw [← List.drop_succ_cons (a := x), ← List.drop_drop, hdrop, List.drop_one,
                    List.tail_cons]
                rw [← hrest] at hlast
                refine ih _ ?_ _ _ _ _ _ hlast rfl
                subst hsize
                simp only [List.length_drop, List.length_cons]
                omega
    · rename_i hshort
      refine ensures_endBackward h ?_
      rcases left with _ | ⟨x, xs⟩
      · exact .inr rfl
      · exact .inl (length_le_one fun y y' ys hys => hshort x xs y y' ys rfl hys)

/-! ## A whole merge -/

/-- What stands in front of a list and behind it stays there when its elements fit in between. -/
theorem Settles.between {front middle back ys : List α} {failure : Option ε}
    (h : Settles r E middle ys failure) (hfront : r.Sorted front) (hback : r.Sorted back)
    (hbefore : ∀ x ∈ front, ∀ y ∈ middle ++ back, r.fits x y)
    (hafter : ∀ x ∈ middle, ∀ y ∈ back, r.fits x y) :
    Settles r E (front ++ middle ++ back) (front ++ ys ++ back) failure := by
  refine ⟨(h.stable.append_left front).append_right back, fun hnone => ?_, h.failure⟩
  have hmem : ∀ y ∈ ys, y ∈ middle := fun y hy => h.stable.perm.mem_iff.mpr hy
  rw [List.append_assoc]
  refine Ranking.sorted_append.mpr ⟨hfront, ?_, fun x hx y hy => hbefore x hx y ?_⟩
  · exact Ranking.sorted_append.mpr
      ⟨h.sorted hnone, hback, fun x hx y hy => hafter x (hmem x hx) y hy⟩
  · rcases List.mem_append.mp hy with hy | hy
    · exact List.mem_append_left _ (hmem y hy)
    · exact List.mem_append_right _ hy

/-- Two runs are settled when their middle part is, where the front of the left run fits in front of
the right one and the back of the right run behind what is merged of the left one. -/
theorem Settles.middle {left right ys : List α} {first second : Nat} {failure : Option ε}
    (h : Settles r E (left.drop first ++ right.take second) ys failure) (hleft : r.Sorted left)
    (hright : r.Sorted right) (hfront : ∀ x ∈ left.take first, ∀ z ∈ right, r.fits x z)
    (hbehind : ∀ z ∈ left.drop first, ∀ w ∈ right.drop second, r.fits z w) :
    Settles r E (left ++ right) (left.take first ++ ys ++ right.drop second) failure := by
  obtain ⟨hsorted, -, hparts⟩ :=
    Ranking.sorted_append.mp ((List.take_append_drop first left).symm ▸ hleft)
  obtain ⟨-, hrest, hcut⟩ :=
    Ranking.sorted_append.mp ((List.take_append_drop second right).symm ▸ hright)
  have hwhole := h.between hsorted hrest (fun z hz w hw => ?_) fun z hz w hw => ?_
  · rwa [← List.append_assoc, List.take_append_drop, List.append_assoc,
      List.take_append_drop] at hwhole
  · rcases List.mem_append.mp hw with hw | hw
    · rcases List.mem_append.mp hw with hw | hw
      · exact hparts z hz w hw
      · exact hfront z hz w (List.mem_of_mem_take hw)
    · exact hfront z hz w (List.mem_of_mem_drop hw)
  · rcases List.mem_append.mp hz with hz | hz
    · exact hbehind z hz w hw
    · exact hcut z hz w hw

/-- Where a merge from the front starts. -/
theorem merging_nil {left right : List α} (hleft : r.Sorted left) (hright : r.Sorted right)
    (hlast : ∀ x, left.getLast? = some x → ∀ y ∈ right, r.before y x) :
    Merging r (left ++ right) [] left right :=
  ⟨.refl _, hleft, hright, hlast⟩

/-- Where a merge from the back starts, with the last element of the left run at its place. -/
theorem merging_back {left right : List α} {x y : α} (hleft : r.Sorted left)
    (hright : r.Sorted right) (hlast : left.getLast? = some x) (hx : ∀ z ∈ right, r.before z x)
    (hhead : right.head? = some y) (hy : ∀ z ∈ left, r.before y z) :
    Merging r.flip (left ++ right).reverse [x] right.reverse (left.reverse.drop 1) := by
  obtain ⟨rest, hrest⟩ := List.getLast?_eq_some_iff.mp hlast
  have hturned : left.reverse = x :: rest.reverse := by simp [hrest]
  have hstart : Merging r.flip (left ++ right).reverse [] right.reverse left.reverse := by
    rw [List.reverse_append]
    refine merging_nil (Ranking.sorted_flip_reverse.mpr hright)
      (Ranking.sorted_flip_reverse.mpr hleft) fun w hw z hz => ?_
    rw [List.getLast?_reverse, hhead] at hw
    cases hw
    exact hy z (List.mem_reverse.mp hz)
  rw [hturned] at hstart ⊢
  exact hstart.takeRight_cons fun z hz => hx z (List.mem_reverse.mp hz)

theorem ensures_merge (hless : Compares J E r D less) (threshold : Nat) {left right : List α}
    (hleft : r.Sorted left) (hright : r.Sorted right) (hne : left ≠ [])
    (hD : ∀ x ∈ left ++ right, D x) :
    J.Ensures (merge less threshold left right)
      fun merged => Settles r E (left ++ right) merged.items merged.failure := by
  unfold merge
  rcases right with _ | ⟨y, ys⟩
  · exact J.ensures_pure (.of_sorted (.refl _) (by simpa using hleft))
  · have hy : D y := hD y (by simp)
    have hDleft : ∀ x ∈ left, D x := fun x hx => hD x (List.mem_append_left _ hx)
    have hDright : ∀ x ∈ y :: ys, D x := fun x hx => hD x (List.mem_append_right _ hx)
    dsimp only [List.head?_cons]
    refine Judgement.ensures_bind_run
      (gives_gallop_notBefore hless hleft hy hDleft (List.length_pos_iff.mpr hne))
      (fun first hfirst => ?_) fun e he => J.ensures_pure (.of_failure (.refl _) he)
    have hmoving : r.Sorted (left.drop first) := List.Pairwise.drop hleft
    have hfront : ∀ x ∈ left.take first, ∀ z ∈ y :: ys, r.fits x z := fun x hx =>
      hright.fits_of_head (hfirst.front x hx)
    dsimp only
    split
    · rename_i hnone
      have hnothing : left.drop first = [] := List.getLast?_eq_none_iff.mp hnone
      refine J.ensures_pure (.of_sorted (.refl _)
        (Ranking.sorted_append.mpr ⟨hleft, hright, fun x hx => hfront x ?_⟩))
      rwa [← List.take_append_drop first left, hnothing, List.append_nil] at hx
    · rename_i x hlast
      have hx : x ∈ left.drop first := List.mem_of_getLast? hlast
      refine Judgement.ensures_bind_run
        (gives_gallop_isBefore hless hright (hDleft x (List.mem_of_mem_drop hx)) hDright (by simp))
        (fun second hsecond => ?_) fun e he => J.ensures_pure (.of_failure (.refl _) he)
      have hcoming : r.Sorted ((y :: ys).take second) := List.Pairwise.take hright
      have hbehind : ∀ z ∈ left.drop first, ∀ w ∈ (y :: ys).drop second, r.fits z w := by
        intro z hz w hw
        rcases hmoving.fits_getLast? hlast hz with rfl | hzx
        · exact hsecond.back w hw
        · exact r.fits_trans hzx (hsecond.back w hw)
      have hframe : ∀ merged : Merged α ε,
          Settles r E (left.drop first ++ (y :: ys).take second) merged.items merged.failure →
          Settles r E (left ++ y :: ys)
            (left.take first ++ merged.items ++ (y :: ys).drop second) merged.failure :=
        fun merged hmerged => hmerged.middle hleft hright hfront hbehind
      have hmem : ∀ z ∈ left.drop first ++ (y :: ys).take second, D z := by
        intro z hz
        rcases List.mem_append.mp hz with hz | hz
        · exact hDleft z (List.mem_of_mem_drop hz)
        · exact hDright z (List.mem_of_mem_take hz)
      have hbefore : ∀ w, (left.drop first).getLast? = some w → ∀ z ∈ (y :: ys).take second,
          r.before z w := by
        intro w hw
        rw [hlast] at hw
        cases hw
        exact hsecond.front
      dsimp only
      cases second with
      | zero =>
        exact J.ensures_bind (J.ensures_pure (.of_sorted (by simpa using Stable.refl _) hmoving))
          fun merged h => J.ensures_pure (hframe merged h)
      | succ n =>
        rw [List.take_succ_cons] at hframe hmem hbefore hcoming ⊢
        rw [if_neg (by simp)]
        split
        · refine J.ensures_bind (ensures_mergeForward hless hmem _ _ _ _ _ ?_)
            fun merged h => J.ensures_pure (hframe merged h)
          exact (merging_nil hmoving hcoming hbefore).takeRight_cons hfirst.back
        · refine J.ensures_bind (ensures_mergeBackward hless hmem _ _ _ _ _ ?_)
            fun merged h => J.ensures_pure (hframe merged h)
          exact merging_back hmoving hcoming hlast hsecond.front rfl hfirst.back

end Recordset.Sorting
