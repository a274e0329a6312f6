import Recordset.Proofs.Sorting.Order
set_option autoImplicit false

/-!
# What a search finds

A search ends at a place with a yes in front of it and a no at it, as far as there are places
(`IsEnd`).  Where the answers come from comparing an element with those of a sorted list, that place
cuts the list: what stands in front of it goes before the element, and the rest behind.
-/

namespace Recordset.Sorting

variable {α ε : Type} {m : Type → Type} [Monad m] {J : Judgement m} {E : ε → Prop}

/-! ## Searching for the end of a leading part -/

section

variable {leading : Leading ε m} {yes no : Nat → Prop} {size limit : Nat}

/-- Asking about the places below `size` is answered with yes or no. -/
def Asks (J : Judgement m) (E : ε → Prop) (yes no : Nat → Prop) (size : Nat)
    (leading : Leading ε m) : Prop :=
  ∀ i < size, J.Gives E (leading i) fun b => (b = true → yes i) ∧ (b = false → no i)

/-- A place with a yes in front of it and a no at it. -/
structure IsEnd (yes no : Nat → Prop) (size n : Nat) : Prop where
  le : n ≤ size
  yes : 0 < n → yes (n - 1)
  no : n < size → no n

theorem gives_bisect (hleading : Asks J E yes no size leading) :
    ∀ fuel low high, low ≤ high → high ≤ size → high ≤ fuel + low → (0 < low → yes (low - 1)) →
      (high < size → no high) → J.Gives E (bisect leading fuel low high) (IsEnd yes no size) := by
  intro fuel
  induction fuel with
  | zero =>
    intro low high hle hsize hfuel hlow hhigh
    obtain rfl : low = high := by omega
    exact Judgement.gives_pure ⟨hsize, hlow, hhigh⟩
  | succ fuel ih =>
    intro low high hle hsize hfuel hlow hhigh
    unfold bisect
    split
    · dsimp only
      refine Judgement.gives_bind (hleading _ (by omega)) fun b hb => ?_
      cases b with
      | true => exact ih _ _ (by omega) hsize (by omega) (fun _ => hb.1 rfl) hhigh
      | false => exact ih _ _ (by omega) (by omega) (by omega) hlow fun _ => hb.2 rfl
    · obtain rfl : low = high := by omega
      exact Judgement.gives_pure ⟨hsize, hlow, hhigh⟩

/-- A stride answered with yes and a longer one that was not, or that is the limit. -/
structure IsStride (yes no : Nat → Prop) (limit : Nat) (found : Nat × Nat) : Prop where
  lt : found.1 < found.2
  le : found.2 ≤ limit
  yes : yes found.1
  no : found.2 < limit → no found.2

theorem gives_stride {ask : Leading ε m} (hask : Asks J E yes no limit ask) :
    ∀ fuel last next, last < next → last < limit → limit ≤ fuel + next → yes last →
      J.Gives E (stride ask limit fuel last next) (IsStride yes no limit) := by
  intro fuel
  induction fuel with
  | zero =>
    intro last next hlt hlimit hfuel hlast
    have hmin : min next limit = limit := by omega
    rw [stride, hmin]
    exact Judgement.gives_pure ⟨hlimit, Nat.le_refl _, hlast, fun h => absurd h (Nat.lt_irrefl _)⟩
  | succ fuel ih =>
    intro last next hlt hlimit hfuel hlast
    unfold stride
    split
    · rename_i hnext
      refine Judgement.gives_bind (hask next hnext) fun b hb => ?_
      cases b with
      | true => exact ih _ _ (by omega) hnext (by omega) (hb.1 rfl)
      | false => exact Judgement.gives_pure ⟨hlt, Nat.le_of_lt hnext, hlast, fun _ => hb.2 rfl⟩
    · exact Judgement.gives_pure ⟨hlimit, Nat.le_refl _, hlast, fun h => absurd h (Nat.lt_irrefl _)⟩

theorem gives_gallop (hleading : Asks J E yes no size leading) {guess : Nat}
    (hguess : guess < size) : J.Gives E (gallop leading size guess) (IsEnd yes no size) := by
  unfold gallop
  refine Judgement.gives_bind (hleading guess hguess) fun b hb => ?_
  cases b with
  | true =>
    have hask : Asks J E (fun o => yes (guess + o)) (fun o => no (guess + o)) (size - guess)
        fun o => leading (guess + o) := fun o ho => hleading _ (by omega)
    refine Judgement.gives_bind
      (gives_stride hask size 0 1 Nat.one_pos (by omega) (by omega) (hb.1 rfl)) fun found h => ?_
    have hlt := h.lt
    have hle := h.le
    exact gives_bisect hleading _ _ _ (by omega) (by omega) (by omega) (fun _ => h.yes)
      fun hhigh => h.no (by omega)
  | false =>
    have hask : Asks J E (fun o => no (guess - o)) (fun o => yes (guess - o)) (guess + 1)
        fun o => do return !(← leading (guess - o)) := fun o ho =>
      Judgement.gives_bind (hleading _ (by omega)) fun b hb =>
        Judgement.gives_pure (by cases b <;> simpa using hb)
    refine Judgement.gives_bind
      (gives_stride hask size 0 1 Nat.one_pos (by omega) (by omega) (hb.2 rfl)) fun found h => ?_
    have hlt := h.lt
    have hle := h.le
    refine gives_bisect hleading _ _ _ (by omega) (by omega) (by omega) (fun hlow => ?_)
      fun _ => h.yes
    have hplace : guess + 1 - found.2 - 1 = guess - found.2 := by omega
    rw [hplace]
    exact h.no (by omega)

end

/-! ## Searching a sorted list -/

variable {r : Ranking α} {D : α → Prop} {less : Less α ε m} {x : α} {xs : List α}

/-- A place that cuts a list: what stands in front of it goes before an element, the rest behind. -/
structure Cuts (front back : α → Prop) (xs : List α) (n : Nat) : Prop where
  le : n ≤ xs.length
  front : ∀ y ∈ xs.take n, front y
  back : ∀ y ∈ xs.drop n, back y

/-- In a sorted list the place of an end cuts it, when fitting carries the answers along. -/
theorem IsEnd.cuts {front back : α → Prop} {n : Nat} (hxs : r.Sorted xs)
    (hfront : ∀ y z, r.fits y z → front z → front y)
    (hback : ∀ y z, r.fits y z → back y → back z)
    (h : IsEnd (fun i => ∀ y, xs[i]? = some y → front y) (fun i => ∀ y, xs[i]? = some y → back y)
      xs.length n) : Cuts front back xs n := by
  refine ⟨h.le, fun y hy => ?_, fun y hy => ?_⟩
  · obtain ⟨i, hi, rfl⟩ := List.mem_take_iff_getElem.mp hy
    have hlt : i < n ∧ i < xs.length := by omega
    have hlast := h.yes (by omega) _ (List.getElem?_eq_getElem (by have := h.le; omega))
    rcases Nat.lt_or_ge i (n - 1) with hbefore | hat
    · exact hfront _ _ (List.pairwise_iff_getElem.mp hxs _ _ _ _ hbefore) hlast
    · obtain rfl : i = n - 1 := by omega
      exact hlast
  · obtain ⟨i, hi, rfl⟩ := List.mem_drop_iff_getElem.mp hy
    have hfirst := h.no (by omega) _ (List.getElem?_eq_getElem (by omega))
    rcases Nat.eq_zero_or_pos i with rfl | hpos
    · simpa using hfirst
    · exact hback _ _ (List.pairwise_iff_getElem.mp hxs n (n + i) (by omega) (by omega) (by omega))
        hfirst

/-- Asking where an element does not have to come before those of a list. -/
theorem asks_notBefore (hless : Compares J E r D less) (hx : D x) (hxs : ∀ y ∈ xs, D y) :
    Asks J E (fun i => ∀ y, xs[i]? = some y → r.fits y x)
      (fun i => ∀ y, xs[i]? = some y → r.before x y) xs.length (notBefore less x xs.toArray) := by
  intro i hi
  unfold notBefore
  simp only [List.getElem?_toArray, List.getElem?_eq_getElem hi, Option.some.injEq, forall_eq']
  refine Judgement.gives_bind (hless x xs[i] hx (hxs _ (List.getElem_mem hi))) fun b hb => ?_
  refine Judgement.gives_pure ?_
  cases b <;> simpa using hb

/-- Asking which elements of a list have to come before an element. -/
theorem asks_isBefore (hless : Compares J E r D less) (hx : D x) (hxs : ∀ y ∈ xs, D y) :
    Asks J E (fun i => ∀ y, xs[i]? = some y → r.before y x)
      (fun i => ∀ y, xs[i]? = some y → r.fits x y) xs.length (isBefore less xs.toArray x) := by
  intro i hi
  unfold isBefore
  simp only [List.getElem?_toArray, List.getElem?_eq_getElem hi, Option.some.injEq, forall_eq']
  exact hless xs[i] x (hxs _ (List.getElem_mem hi)) hx

/-- In a sorted list a gallop finds the place of an element behind what fits in front of it. -/
theorem gives_gallop_notBefore (hless : Compares J E r D less) (hsorted : r.Sorted xs) (hx : D x)
    (hxs : ∀ y ∈ xs, D y) {guess : Nat} (hguess : guess < xs.length) :
    J.Gives E (gallop (notBefore less x xs.toArray) xs.length guess)
      (Cuts (r.fits · x) (r.before x) xs) :=
  (gives_gallop (asks_notBefore hless hx hxs) hguess).imp fun _ h =>
    h.cuts hsorted (fun _ _ => r.fits_trans) fun _ _ hyz hy => r.before_of_before_of_fits hy hyz

/-- In a sorted list a gallop finds the place of an element behind what has to come before it. -/
theorem gives_gallop_isBefore (hless : Compares J E r D less) (hsorted : r.Sorted xs) (hx : D x)
    (hxs : ∀ y ∈ xs, D y) {guess : Nat} (hguess : guess < xs.length) :
    J.Gives E (gallop (isBefore less xs.toArray x) xs.length guess)
      (Cuts (r.before · x) (r.fits x) xs) :=
  (gives_gallop (asks_isBefore hless hx hxs) hguess).imp fun _ h =>
    h.cuts hsorted (fun _ _ => r.before_of_fits_of_before) fun _ _ hyz hy => r.fits_trans hy hyz

theorem gives_placeOf (hless : Compares J E r D less) (hsorted : r.Sorted xs) (hx : D x)
    (hxs : ∀ y ∈ xs, D y) :
    J.Gives E (placeOf less x xs) (Cuts (r.fits · x) (r.before x) xs) :=
  (gives_bisect (asks_notBefore hless hx hxs) _ _ _ (Nat.zero_le _) (Nat.le_refl _) (by omega)
    (fun h => absurd h (Nat.lt_irrefl 0)) fun h => absurd h (Nat.lt_irrefl _)).imp fun _ h =>
    h.cuts hsorted (fun _ _ => r.fits_trans) fun _ _ hyz hy => r.before_of_before_of_fits hy hyz

end Recordset.Sorting
