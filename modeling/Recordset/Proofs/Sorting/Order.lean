import Mathlib.Data.List.Pairwise
import Mathlib.Logic.Relation
import Mathlib.Order.Basic
import Recordset.Sorting.Basic
set_option autoImplicit false

/-!
# Stable rearrangements

A comparison tells of two elements that the first comes before the second, or that the second fits
in front of the first.  `Ranking` is what these two relations have in common with an order; they
need not exclude one another, so that a comparison between elements of one kind is a ranking too.

A rearrangement is stable when it comes about by swaps of neighbours that stand the wrong way round
(`Stable`).  Elements then only pass one another when the later one comes before the earlier one.

What a comparison does besides answering is left open: a `Judgement` says what is ensured of the
results of a computation, and the sort relies on no more than that.
-/

namespace Recordset.Sorting

variable {α ε : Type} {m : Type → Type} [Monad m]

/-! ## Judgements -/

/-- What is ensured of the results of computations, one after another. -/
structure Judgement (m : Type → Type) [Monad m] where
  Ensures : {α : Type} → m α → (α → Prop) → Prop
  ensures_pure : ∀ {α : Type} {p : α → Prop} {a : α}, p a → Ensures (pure a) p
  ensures_bind : ∀ {α β : Type} {x : m α} {f : α → m β} {p : α → Prop} {q : β → Prop},
    Ensures x p → (∀ a, p a → Ensures (f a) q) → Ensures (x >>= f) q
  ensures_imp : ∀ {α : Type} {x : m α} {p q : α → Prop},
    Ensures x p → (∀ a, p a → q a) → Ensures x q

/-- A computation without effects ensures what holds of its result. -/
def Judgement.ofResult : Judgement Id where
  Ensures x p := p x.run
  ensures_pure h := h
  ensures_bind hx hf := hf _ hx
  ensures_imp hx h := h _ hx

/-- A computation on a state ensures what holds of its result when it starts where an invariant
holds, and that the invariant holds after it. -/
def Judgement.keeping {σ : Type} (I : σ → Prop) : Judgement (StateM σ) where
  Ensures x p := ∀ s, I s → p (x.run s).1 ∧ I (x.run s).2
  ensures_pure h _ hs := ⟨h, hs⟩
  ensures_bind hx hf s hs := hf _ (hx s hs).1 _ (hx s hs).2
  ensures_imp hx h s hs := ⟨h _ (hx s hs).1, (hx s hs).2⟩

namespace Judgement

variable {β : Type} {J : Judgement m} {E : ε → Prop}

/-- A computation that may fail gives results of a kind, or a failure of a kind. -/
def Gives (J : Judgement m) (E : ε → Prop) (x : ExceptT ε m α) (p : α → Prop) : Prop :=
  J.Ensures x.run fun r => match r with
    | .ok a => p a
    | .error e => E e

theorem gives_pure {p : α → Prop} {a : α} (h : p a) : J.Gives E (pure a) p := J.ensures_pure h

theorem gives_bind {x : ExceptT ε m α} {f : α → ExceptT ε m β} {p : α → Prop} {q : β → Prop}
    (hx : J.Gives E x p) (hf : ∀ a, p a → J.Gives E (f a) q) : J.Gives E (x >>= f) q :=
  J.ensures_bind hx fun r h => match r with
    | .ok a => hf a h
    | .error _ => J.ensures_pure h

theorem Gives.imp {x : ExceptT ε m α} {p q : α → Prop} (hx : J.Gives E x p)
    (h : ∀ a, p a → q a) : J.Gives E x q :=
  J.ensures_imp hx fun r hr => match r with
    | .ok a => h a hr
    | .error _ => hr

/-- What goes on with the outcome of a computation that may fail. -/
theorem ensures_bind_run {x : ExceptT ε m α} {f : Except ε α → m β} {p : α → Prop} {q : β → Prop}
    (hx : J.Gives E x p) (hok : ∀ a, p a → J.Ensures (f (.ok a)) q)
    (herror : ∀ e, E e → J.Ensures (f (.error e)) q) : J.Ensures (x.run >>= f) q :=
  J.ensures_bind hx fun r h => match r with
    | .ok a => hok a h
    | .error e => herror e h

end Judgement

/-! ## Rankings -/

/-- Which element has to come before which, and which fits in front of which. -/
structure Ranking (α : Type) where
  before : α → α → Prop
  fits : α → α → Prop
  fits_of_before : ∀ {x y}, before x y → fits x y
  fits_trans : ∀ {x y z}, fits x y → fits y z → fits x z
  before_of_before_of_fits : ∀ {x y z}, before x y → fits y z → before x z
  before_of_fits_of_before : ∀ {x y z}, fits x y → before y z → before x z

namespace Ranking

variable {r : Ranking α} {xs ys : List α} {x y : α}

/-- The order turned round. -/
def flip (r : Ranking α) : Ranking α where
  before x y := r.before y x
  fits x y := r.fits y x
  fits_of_before h := r.fits_of_before h
  fits_trans hxy hyz := r.fits_trans hyz hxy
  before_of_before_of_fits hxy hyz := r.before_of_fits_of_before hyz hxy
  before_of_fits_of_before hxy hyz := r.before_of_before_of_fits hyz hxy

/-- The order of what things are taken for. -/
def comap {β : Type} (f : β → α) (r : Ranking α) : Ranking β where
  before x y := r.before (f x) (f y)
  fits x y := r.fits (f x) (f y)
  fits_of_before h := r.fits_of_before h
  fits_trans hxy hyz := r.fits_trans hxy hyz
  before_of_before_of_fits hxy hyz := r.before_of_before_of_fits hxy hyz
  before_of_fits_of_before hxy hyz := r.before_of_fits_of_before hxy hyz

/-- The order by a measure; what has none stands in no order to anything. -/
def ofMeasure {β : Type} [Preorder β] (measure : α → Option β) : Ranking α where
  before x y := ∃ m n, measure x = some m ∧ measure y = some n ∧ m < n
  fits x y := ∃ m n, measure x = some m ∧ measure y = some n ∧ m ≤ n
  fits_of_before := fun ⟨m, n, hm, hn, h⟩ => ⟨m, n, hm, hn, h.le⟩
  fits_trans := by
    rintro x y z ⟨m, n, hm, hn, hmn⟩ ⟨n', k, hn', hk, hnk⟩
    obtain rfl : n = n' := Option.some.inj (hn.symm.trans hn')
    exact ⟨m, k, hm, hk, hmn.trans hnk⟩
  before_of_before_of_fits := by
    rintro x y z ⟨m, n, hm, hn, hmn⟩ ⟨n', k, hn', hk, hnk⟩
    obtain rfl : n = n' := Option.some.inj (hn.symm.trans hn')
    exact ⟨m, k, hm, hk, hmn.trans_le hnk⟩
  before_of_fits_of_before := by
    rintro x y z ⟨m, n, hm, hn, hmn⟩ ⟨n', k, hn', hk, hnk⟩
    obtain rfl : n = n' := Option.some.inj (hn.symm.trans hn')
    exact ⟨m, k, hm, hk, hmn.trans_lt hnk⟩

/-- The elements of a list fit one after another. -/
def Sorted (r : Ranking α) (xs : List α) : Prop := xs.Pairwise r.fits

theorem sorted_flip_reverse : r.flip.Sorted xs.reverse ↔ r.Sorted xs := List.pairwise_reverse

theorem sorted_append : r.Sorted (xs ++ ys) ↔
    r.Sorted xs ∧ r.Sorted ys ∧ ∀ x ∈ xs, ∀ y ∈ ys, r.fits x y :=
  List.pairwise_append

theorem sorted_cons : r.Sorted (x :: xs) ↔ (∀ y ∈ xs, r.fits x y) ∧ r.Sorted xs :=
  List.pairwise_cons

/-- In a sorted list everything fits in front of the last element or is it. -/
theorem Sorted.fits_getLast? (h : r.Sorted xs) (hlast : xs.getLast? = some y) (hx : x ∈ xs) :
    x = y ∨ r.fits x y := by
  obtain ⟨front, rfl⟩ := List.getLast?_eq_some_iff.mp hlast
  rcases List.mem_append.mp hx with hfront | hy
  · exact .inr ((sorted_append.mp h).2.2 x hfront y (List.mem_singleton_self y))
  · exact .inl (List.mem_singleton.mp hy)

end Ranking

/-- A comparison answers by a ranking when it is asked about elements of a kind. -/
def Compares (J : Judgement m) (E : ε → Prop) (r : Ranking α) (D : α → Prop) (less : Less α ε m) :
    Prop :=
  ∀ x y, D x → D y →
    J.Gives E (less x y) fun b => (b = true → r.before x y) ∧ (b = false → r.fits y x)

/-! ## Stable rearrangements -/

/-- Two neighbours that stand the wrong way round are swapped. -/
inductive Swap (r : Ranking α) : List α → List α → Prop where
  | intro (front back : List α) {x y : α} (h : r.before y x) :
    Swap r (front ++ x :: y :: back) (front ++ y :: x :: back)

/-- A rearrangement by swaps of neighbours that stand the wrong way round. -/
def Stable (r : Ranking α) : List α → List α → Prop := Relation.ReflTransGen (Swap r)

namespace Stable

variable {β : Type} {r : Ranking α} {xs ys zs : List α} {x y : α}

theorem refl (xs : List α) : Stable r xs xs := Relation.ReflTransGen.refl

theorem trans (hxy : Stable r xs ys) (hyz : Stable r ys zs) : Stable r xs zs :=
  Relation.ReflTransGen.trans hxy hyz

theorem append_left (front : List α) (h : Stable r xs ys) :
    Stable r (front ++ xs) (front ++ ys) := by
  refine Relation.ReflTransGen.lift (front ++ ·) ?_ _ _ h
  rintro _ _ ⟨before, back, hyx⟩
  simp only [Function.onFun, ← List.append_assoc]
  exact ⟨_, back, hyx⟩

theorem append_right (h : Stable r xs ys) (back : List α) : Stable r (xs ++ back) (ys ++ back) := by
  refine Relation.ReflTransGen.lift (· ++ back) ?_ _ _ h
  rintro _ _ ⟨front, after, hyx⟩
  simp only [Function.onFun, List.append_assoc, List.cons_append]
  exact ⟨front, _, hyx⟩

theorem perm (h : Stable r xs ys) : xs.Perm ys := by
  induction h with
  | refl => exact .refl _
  | tail _ hswap ih =>
    obtain ⟨front, back, _⟩ := hswap
    exact ih.trans ((List.Perm.swap _ _ back).append_left front)

/-- What is turned round is rearranged by the order turned round. -/
theorem reverse (h : Stable r xs ys) : Stable r.flip xs.reverse ys.reverse := by
  refine Relation.ReflTransGen.lift List.reverse ?_ _ _ h
  rintro _ _ ⟨front, back, hyx⟩
  simp only [Function.onFun, List.reverse_append, List.reverse_cons, List.append_assoc,
    List.cons_append, List.nil_append]
  exact ⟨_, _, hyx⟩

/-- An element moves behind those that have to come before it. -/
theorem move (h : ∀ y ∈ ys, r.before y x) : Stable r (x :: ys) (ys ++ [x]) := by
  induction ys with
  | nil => exact refl _
  | cons y ys ih =>
    have hswap : Swap r (x :: y :: ys) (y :: x :: ys) := .intro [] ys (h y List.mem_cons_self)
    have hrest := ih fun z hz => h z (List.mem_cons_of_mem y hz)
    exact .head hswap (hrest.append_left [y])

/-- A block moves behind another whose elements have to come before its own. -/
theorem exchange (h : ∀ x ∈ xs, ∀ y ∈ ys, r.before y x) : Stable r (xs ++ ys) (ys ++ xs) := by
  induction xs with
  | nil => simpa using refl ys
  | cons x xs ih =>
    have hrest := ih fun z hz => h z (List.mem_cons_of_mem x hz)
    have hfirst : Stable r (x :: ys) (ys ++ [x]) := move (h x List.mem_cons_self)
    have hmoved := (hrest.append_left [x]).trans (hfirst.append_right xs)
    simpa using hmoved

/-- A list is turned round whose elements stand the wrong way round throughout. -/
theorem turn (h : xs.Pairwise fun x y => r.before y x) : Stable r xs xs.reverse := by
  induction xs with
  | nil => exact refl _
  | cons x xs ih =>
    obtain ⟨hx, hxs⟩ := List.pairwise_cons.mp h
    rw [List.reverse_cons]
    exact (move hx).trans ((ih hxs).append_right [x])

/-- A list in which nothing stands the wrong way round stays as it is. -/
theorem eq_of_pairwise (h : Stable r xs ys) (hxs : xs.Pairwise fun x y => ¬ r.before y x) :
    ys = xs := by
  induction h with
  | refl => rfl
  | tail _ hswap ih =>
    subst ih
    obtain ⟨front, back, hyx⟩ := hswap
    have hpair := (List.pairwise_append.mp hxs).2.1
    exact absurd hyx ((List.pairwise_cons.mp hpair).1 _ List.mem_cons_self)

/-- One element stands in front of another because it stood there before, or because it has to come
before it. -/
theorem pairwise {R : α → α → Prop} (h : Stable r xs ys) (hxs : xs.Pairwise R) :
    ys.Pairwise fun x y => R x y ∨ r.before x y := by
  induction h with
  | refl => exact hxs.imp .inl
  | tail _ hswap ih =>
    obtain ⟨front, back, hyx⟩ := hswap
    simp only [List.pairwise_append, List.pairwise_cons, List.mem_cons] at ih ⊢
    grind

/-- A rearrangement of what things are taken for comes from one of the things. -/
theorem exists_map {f : β → α} {vs : List β} {ys : List α} (h : Stable r (vs.map f) ys) :
    ∃ ws, Stable (r.comap f) vs ws ∧ ys = ws.map f := by
  generalize hxs : vs.map f = xs at h
  induction h with
  | refl => exact ⟨vs, refl vs, hxs.symm⟩
  | tail _ hswap ih =>
    obtain ⟨front, back, hyx⟩ := hswap
    obtain ⟨ws, hws, hmap⟩ := ih
    obtain ⟨before, rest, rfl, rfl, hrest⟩ := List.map_eq_append_iff.mp hmap.symm
    obtain ⟨v, more, rfl, rfl, hmore⟩ := List.map_eq_cons_iff.mp hrest
    obtain ⟨w, after, rfl, rfl, rfl⟩ := List.map_eq_cons_iff.mp hmore
    refine ⟨before ++ w :: v :: after, hws.tail ⟨before, after, hyx⟩, ?_⟩
    rw [List.map_append, List.map_cons, List.map_cons]

end Stable

end Recordset.Sorting
