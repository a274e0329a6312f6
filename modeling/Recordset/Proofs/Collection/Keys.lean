import Mathlib.Data.List.Sort
import Recordset.Collection.Summary
import Recordset.Proofs.Collection.Visit
import Recordset.Proofs.Ownership.Confined
import Recordset.Proofs.Query.Testing
set_option autoImplicit false

/-!
# Finding the keys of the items

Dropping repeated items, filing them and putting them into buckets are visits that find the key of
each item and go on with it (`Collection.FindsAll`). The key may be found by a callback that changes
the collection, so that what is visited is noted together with the keys and with the stores in which
they were found.

`KeepsFirsts` says of which positions the first ones are kept: each one before which none has been
kept that is equal to it.
-/

namespace Recordset

/-! ## The first ones of equal positions -/

/-- The positions below a bound that are kept when each one is dropped that equals one kept before.
-/
structure KeepsFirsts (equal : Nat → Nat → Prop) (n : Nat) (held : List Nat) : Prop where
  increasing : held.Pairwise (· < ·)
  mem_iff : ∀ i, i ∈ held ↔ i < n ∧ ∀ j ∈ held, j < i → ¬ equal j i

namespace KeepsFirsts

variable {equal other : Nat → Nat → Prop} {n : Nat} {held rest : List Nat}

theorem nil (equal : Nat → Nat → Prop) : KeepsFirsts equal 0 [] :=
  ⟨.nil, fun i => by simp⟩

theorem lt_of_mem (h : KeepsFirsts equal n held) {i : Nat} (hi : i ∈ held) : i < n :=
  ((h.mem_iff i).mp hi).1

/-- A position that equals one kept before is dropped. -/
theorem drop (h : KeepsFirsts equal n held) (hequal : ∃ j ∈ held, equal j n) :
    KeepsFirsts equal (n + 1) held := by
  refine ⟨h.increasing, fun i => ⟨fun hi => ?_, fun ⟨hi, hnone⟩ => ?_⟩⟩
  · obtain ⟨hlt, hnone⟩ := (h.mem_iff i).mp hi
    exact ⟨Nat.lt_succ_of_lt hlt, hnone⟩
  · rcases Nat.lt_succ_iff_lt_or_eq.mp hi with hlt | rfl
    · exact (h.mem_iff i).mpr ⟨hlt, hnone⟩
    · obtain ⟨j, hj, hji⟩ := hequal
      exact absurd hji (hnone j hj (h.lt_of_mem hj))

/-- A position that equals none kept before is kept. -/
theorem keep (h : KeepsFirsts equal n held) (hequal : ∀ j ∈ held, ¬ equal j n) :
    KeepsFirsts equal (n + 1) (held ++ [n]) := by
  refine ⟨?_, fun i => ⟨fun hi => ?_, fun ⟨hi, hnone⟩ => ?_⟩⟩
  · refine List.pairwise_append.mpr ⟨h.increasing, List.pairwise_singleton _ _, fun j hj i hi => ?_⟩
    rw [List.mem_singleton.mp hi]
    exact h.lt_of_mem hj
  · rcases List.mem_append.mp hi with hi | hi
    · obtain ⟨hlt, hnone⟩ := (h.mem_iff i).mp hi
      refine ⟨Nat.lt_succ_of_lt hlt, fun j hj hji => ?_⟩
      rcases List.mem_append.mp hj with hj | hj
      · exact hnone j hj hji
      · rw [List.mem_singleton.mp hj] at hji
        omega
    · obtain rfl := List.mem_singleton.mp hi
      refine ⟨Nat.lt_succ_self i, fun j hj hji => ?_⟩
      rcases List.mem_append.mp hj with hj | hj
      · exact hequal j hj
      · rw [List.mem_singleton.mp hj] at hji
        exact absurd hji (Nat.lt_irrefl i)
  · rcases Nat.lt_succ_iff_lt_or_eq.mp hi with hlt | rfl
    · refine List.mem_append_left _ ((h.mem_iff i).mpr ⟨hlt, fun j hj => ?_⟩)
      exact hnone j (List.mem_append_left _ hj)
    · exact List.mem_append_right _ List.mem_cons_self

/-- The first ones can be kept for every bound, going up from one position to the next. -/
theorem exists_keepsFirsts (equal : Nat → Nat → Prop) (n : Nat) :
    ∃ held, KeepsFirsts equal n held := by
  induction n with
  | zero => exact ⟨[], nil equal⟩
  | succ n ih =>
    obtain ⟨held, h⟩ := ih
    by_cases hequal : ∃ j ∈ held, equal j n
    · exact ⟨held, h.drop hequal⟩
    · exact ⟨held ++ [n], h.keep fun j hj hjn => hequal ⟨j, hj, hjn⟩⟩

/-- There is only one way to keep the first ones. -/
theorem unique (h : KeepsFirsts equal n held) (h' : KeepsFirsts equal n rest) : held = rest := by
  have hmem : ∀ i, i ∈ held ↔ i ∈ rest := by
    intro i
    induction i using Nat.strong_induction_on with
    | _ i ih =>
      rw [h.mem_iff, h'.mem_iff]
      refine and_congr_right fun _ => ⟨fun hnone j hj hji => ?_, fun hnone j hj hji => ?_⟩
      · exact hnone j ((ih j hji).mpr hj) hji
      · exact hnone j ((ih j hji).mp hj) hji
  exact h.increasing.eq_of_mem_iff h'.increasing hmem

/-- What is kept depends on which earlier positions equal which later ones. -/
theorem congr (h : KeepsFirsts equal n held)
    (hequal : ∀ j i, j < i → i < n → (equal j i ↔ other j i)) : KeepsFirsts other n held := by
  refine ⟨h.increasing, fun i => (h.mem_iff i).trans (and_congr_right fun hi => ?_)⟩
  exact forall₂_congr fun j _ => imp_congr_right fun hji => not_congr (hequal j i hji hi)

/-- Where more positions are equal, the same ones are kept exactly when no two of those are equal
then. -/
theorem iff_of_imp (h : KeepsFirsts equal n held)
    (himp : ∀ j ∈ held, ∀ i, equal j i → other j i) :
    KeepsFirsts other n held ↔ ∀ j ∈ held, ∀ i ∈ held, j < i → ¬ other j i := by
  refine ⟨fun h' j hj i hi hji => ((h'.mem_iff i).mp hi).2 j hj hji, fun hnone => ?_⟩
  refine ⟨h.increasing, fun i => ⟨fun hi => ⟨h.lt_of_mem hi, fun j hj => hnone j hj i hi⟩, ?_⟩⟩
  rintro ⟨hi, hother⟩
  exact (h.mem_iff i).mpr ⟨hi, fun j hj hji hequal => hother j hj hji (himp j hj i hequal)⟩

/-- Each position is kept, or equals one that has been kept before. -/
theorem mem_or_equal (h : KeepsFirsts equal n held) {i : Nat} (hi : i < n) :
    i ∈ held ∨ ∃ j ∈ held, j < i ∧ equal j i := by
  by_cases hmem : i ∈ held
  · exact .inl hmem
  · refine .inr ?_
    rw [h.mem_iff] at hmem
    push Not at hmem
    exact hmem hi

instance [∀ j i, Decidable (equal j i)] : Decidable (KeepsFirsts equal n held) :=
  decidable_of_iff (held.Pairwise (· < ·) ∧ (∀ i ∈ held, i < n) ∧
      ∀ i < n, i ∈ held ↔ ∀ j ∈ held, j < i → ¬ equal j i)
    ⟨fun ⟨hincreasing, hlt, hmem⟩ => ⟨hincreasing, fun i =>
        ⟨fun hi => ⟨hlt i hi, (hmem i (hlt i hi)).mp hi⟩, fun hi => (hmem i hi.1).mpr hi.2⟩⟩,
      fun h => ⟨h.increasing, fun _ => h.lt_of_mem, fun i hi =>
        (h.mem_iff i).trans (and_iff_right hi)⟩⟩

end KeepsFirsts

/-! ## Folds over lists -/

/-- A fold that may fail comes to its end when each step keeps an invariant. -/
theorem foldlM_ok {α σ : Type} {f : σ → α → Except Error σ} {xs : List α} :
    ∀ (Inv : Nat → σ → Prop) {init : σ}, Inv 0 init →
      (∀ i (hi : i < xs.length) state, Inv i state →
        ∃ next, f state xs[i] = .ok next ∧ Inv (i + 1) next) →
      ∃ last, xs.foldlM f init = .ok last ∧ Inv xs.length last := by
  induction xs with
  | nil => exact fun Inv init hstart _ => ⟨init, rfl, hstart⟩
  | cons x xs ih =>
    intro Inv init hstart hstep
    obtain ⟨next, hnext, hinv⟩ := hstep 0 (Nat.zero_lt_succ _) init hstart
    rw [List.getElem_cons_zero] at hnext
    obtain ⟨last, hlast, hend⟩ := ih (fun i => Inv (i + 1)) hinv fun i hi =>
      hstep (i + 1) (Nat.succ_lt_succ hi)
    refine ⟨last, ?_, hend⟩
    rw [List.foldlM_cons, hnext]
    exact hlast

/-- A fold that comes to its end has taken each of its steps. -/
theorem exists_of_foldlM_ok {α σ : Type} {f : σ → α → Except Error σ} {xs : List α} :
    ∀ {init last : σ}, xs.foldlM f init = .ok last →
      ∀ x ∈ xs, ∃ state next, f state x = .ok next := by
  induction xs with
  | nil => exact fun _ x hx => absurd hx List.not_mem_nil
  | cons x xs ih =>
    intro init last h y hy
    rw [List.foldlM_cons] at h
    cases hnext : f init x with
    | error e =>
      rw [hnext] at h
      cases h
    | ok next =>
      rw [hnext] at h
      rcases List.mem_cons.mp hy with rfl | hy
      · exact ⟨init, next, hnext⟩
      · exact ih h y hy

/-! ## The elements that are kept -/

/-- The elements at some positions of a list. -/
def elementsAt {α : Type} (xs : List α) (held : List Nat) : List α := held.filterMap (xs[·]?)

/-- A relation between the elements at two positions of a list. -/
def Among {α : Type} (xs : List α) (R : α → α → Prop) (j i : Nat) : Prop :=
  ∃ x y, xs[j]? = some x ∧ xs[i]? = some y ∧ R x y

instance {α : Type} {xs : List α} {R : α → α → Prop} [∀ x y, Decidable (R x y)] {j i : Nat} :
    Decidable (Among xs R j i) :=
  match hx : xs[j]?, hy : xs[i]? with
  | some x, some y => decidable_of_iff (R x y)
    ⟨fun h => ⟨x, y, hx, hy, h⟩, fun ⟨v, w, hv, hw, h⟩ => by
      cases hx.symm.trans hv
      cases hy.symm.trans hw
      exact h⟩
  | none, _ => .isFalse fun ⟨v, _, hv, _⟩ => by cases hx.symm.trans hv
  | some _, none => .isFalse fun ⟨_, w, _, hw, _⟩ => by cases hy.symm.trans hw

theorem mem_elementsAt {α : Type} {xs : List α} {held : List Nat} {x : α} :
    x ∈ elementsAt xs held ↔ ∃ j ∈ held, xs[j]? = some x := List.mem_filterMap

theorem elementsAt_append {α : Type} {xs : List α} (held : List Nat) {i : Nat}
    (hi : i < xs.length) : elementsAt xs (held ++ [i]) = elementsAt xs held ++ [xs[i]] := by
  simp [elementsAt, hi]

theorem elementsAt_map {α β : Type} (g : α → β) (xs : List α) (held : List Nat) :
    elementsAt (xs.map g) held = (elementsAt xs held).map g := by
  simp [elementsAt, List.map_filterMap]

theorem among_map {α β : Type} (g : α → β) (xs : List α) (R : β → β → Prop) {j i : Nat} :
    Among (xs.map g) R j i ↔ Among xs (fun x y => R (g x) (g y)) j i := by
  simp [Among, Option.map_eq_some_iff]

/-- A fold that drops each element that is equal to one it has kept, and keeps the others, keeps the
first ones. -/
theorem foldlM_firsts {α σ : Type} {xs : List α} {Fine R : α → α → Prop} (g : List α → σ)
    {step : σ → α → Except Error σ}
    (hdrop : ∀ kept x, (∀ y ∈ kept, Fine y x) → (∃ y ∈ kept, R y x) →
      step (g kept) x = .ok (g kept))
    (hkeep : ∀ kept x, (∀ y ∈ kept, Fine y x) → (∀ y ∈ kept, ¬ R y x) →
      step (g kept) x = .ok (g (kept ++ [x])))
    (hfine : xs.Pairwise Fine) :
    ∃ held, KeepsFirsts (Among xs R) xs.length held ∧
      xs.foldlM step (g []) = .ok (g (elementsAt xs held)) := by
  obtain ⟨last, hlast, held, hheld, rfl⟩ := foldlM_ok (f := step)
    (fun i state => ∃ held, KeepsFirsts (Among xs R) i held ∧ state = g (elementsAt xs held))
    ⟨[], .nil _, rfl⟩ (by
      rintro i hi state ⟨held, hheld, rfl⟩
      have hx : xs[i]? = some xs[i] := List.getElem?_eq_getElem hi
      have hkept : ∀ y ∈ elementsAt xs held, Fine y xs[i] := by
        intro y hy
        obtain ⟨j, hj, hy⟩ := mem_elementsAt.mp hy
        obtain ⟨hjlt, rfl⟩ := List.getElem?_eq_some_iff.mp hy
        exact List.pairwise_iff_getElem.mp hfine j i hjlt hi (hheld.lt_of_mem hj)
      by_cases hequal : ∃ y ∈ elementsAt xs held, R y xs[i]
      · refine ⟨_, hdrop _ _ hkept hequal, held, hheld.drop ?_, rfl⟩
        obtain ⟨y, hy, hyx⟩ := hequal
        obtain ⟨j, hj, hy⟩ := mem_elementsAt.mp hy
        exact ⟨j, hj, y, xs[i], hy, hx, hyx⟩
      · have hnone : ∀ y ∈ elementsAt xs held, ¬ R y xs[i] := fun y hy hyx => hequal ⟨y, hy, hyx⟩
        refine ⟨_, hkeep _ _ hkept hnone, held ++ [i], hheld.keep ?_,
          by rw [elementsAt_append held hi]⟩
        rintro j hj ⟨y, z, hy, hz, hyz⟩
        cases hx.symm.trans hz
        exact hnone y (mem_elementsAt.mpr ⟨j, hj, hy⟩) hyz)
  exact ⟨held, hheld, hlast⟩

namespace Collection

variable {caller : Caller} {key : Key} {a : Address} {c : Collection} {xs : List Value} {i : Nat}
  {s t u : State}

/-! ## Visits that find keys -/

/-- An item that has been visited, its key, and the store in which the key was found. -/
structure Found where
  item : Value
  key : Value
  store : Store

variable {fs : List Found}

/-- The keys of the items from an index on are found, until an index has no item. -/
inductive Finding (caller : Caller) (key : Key) (a : Address) :
    Nat → List Found → State → State → Prop where
  | done {i : Nat} {xs : List Value} {s : State} (hlists : s.store.Lists a xs)
    (hend : xs.length ≤ i) : Finding caller key a i [] s s
  | next {i : Nat} {xs : List Value} {v k : Value} {fs : List Found} {s t u : State}
    (hlists : s.store.Lists a xs) (hitem : xs[i]? = some v)
    (hkey : (key.find caller v i).execute s = (.ok k, t))
    (hrest : Finding caller key a (i + 1) fs t u) :
    Finding caller key a i (⟨v, k, t.store⟩ :: fs) s u

/-- The keys of all items of a collection are found in a visit that comes to its end. -/
structure FindsAll (caller : Caller) (key : Key) (a : Address) (fs : List Found) (s t : State) :
    Prop where
  finding : Finding caller key a 0 fs s t
  bounded : ∃ xs, s.store.Lists a xs ∧ fs.length < xs.length + growth

theorem Finding.lists (h : Finding caller key a i fs s t) : ∃ xs, t.store.Lists a xs := by
  induction h with
  | done hlists => exact ⟨_, hlists⟩
  | next _ _ _ _ ih => exact ih

/-- The collection is still there after a visit of its items. -/
theorem FindsAll.collection (h : FindsAll caller key a fs s t) :
    ∃ c, t.store.cell? a = some (.collection c) := by
  obtain ⟨xs, c, hholds⟩ := h.finding.lists
  exact ⟨c, hholds.cell⟩

/-- Keys are found when finding one, from any state that is reached in between, keeps the items
where they are. -/
theorem exists_findsAll (Inv : State → Prop) (Good : Nat → Value → Store → Prop)
    (hlists : ∀ t, Inv t → t.store.Lists a xs)
    (hfind : ∀ t, Inv t → ∀ i (hi : i < xs.length), ∃ k u,
      (key.find caller xs[i] i).execute t = (.ok k, u) ∧ Inv u ∧ Good i k u.store) (hs : Inv s) :
    ∃ fs t, FindsAll caller key a fs s t ∧ Inv t ∧ fs.map Found.item = xs ∧
      ∀ i f, fs[i]? = some f → Good i f.key f.store := by
  have hrest : ∀ n i t, Inv t → i + n = xs.length → ∃ fs u, Finding caller key a i fs t u ∧ Inv u ∧
      fs.map Found.item = xs.drop i ∧ ∀ j f, fs[j]? = some f → Good (i + j) f.key f.store := by
    intro n
    induction n with
    | zero =>
      intro i t ht hi
      refine ⟨[], t, .done (hlists t ht) (by omega), ht, ?_, fun j f hf => by cases hf⟩
      rw [List.drop_eq_nil_of_le (by omega)]
      rfl
    | succ n ih =>
      intro i t ht hi
      have hlt : i < xs.length := by omega
      obtain ⟨k, u, hrun, hu, hgood⟩ := hfind t ht i hlt
      obtain ⟨fs, w, hfinding, hw, hitems, hkeys⟩ := ih (i + 1) u hu (by omega)
      refine ⟨⟨xs[i], k, u.store⟩ :: fs, w,
        .next (hlists t ht) (List.getElem?_eq_getElem hlt) hrun hfinding, hw, ?_, fun j f hf => ?_⟩
      · rw [List.map_cons, hitems, List.drop_eq_getElem_cons hlt]
      · cases j with
        | zero =>
          cases hf
          exact hgood
        | succ j =>
          rw [← Nat.succ_add_eq_add_succ]
          exact hkeys j f hf
  obtain ⟨fs, t, hfinding, ht, hitems, hkeys⟩ := hrest xs.length 0 s hs (Nat.zero_add _)
  have hlength : fs.length = xs.length := by
    rw [← List.length_map Found.item, hitems, List.drop_zero]
  refine ⟨fs, t, ⟨hfinding, xs, hlists s hs, ?_⟩, ht, hitems, fun i f hf => ?_⟩
  · rw [hlength]
    exact Nat.lt_add_of_pos_right (by decide)
  · rw [← Nat.zero_add i]
    exact hkeys i f hf

/-- Items that are their own keys, found in one store. -/
def itself (xs : List Value) (r : Store) : List Found := xs.map fun v => ⟨v, v, r⟩

/-- Without a path the items are their own keys. -/
theorem findsAll_itself (hlists : s.store.Lists a xs) :
    FindsAll caller (.path (.str Path.itself)) a (itself xs s.store) s s := by
  have hfind : ∀ t, t = s → ∀ i (hi : i < xs.length), ∃ k u,
      ((Key.path (.str Path.itself)).find caller xs[i] i).execute t = (.ok k, u) ∧ u = s ∧
        some k = xs[i]? ∧ u.store = s.store :=
    fun t ht i hi => ⟨xs[i], t, rfl, ht, (List.getElem?_eq_getElem hi).symm, by rw [ht]⟩
  obtain ⟨fs, t, hfinds, rfl, hitems, hkeys⟩ := exists_findsAll (· = s)
    (fun i k r => some k = xs[i]? ∧ r = s.store) (fun t ht => ht ▸ hlists) hfind rfl
  have hfs : fs = itself xs t.store := by
    unfold itself
    rw [← hitems, List.map_map]
    refine (List.map_id fs).symm.trans (List.map_congr_left fun ⟨item, k, r⟩ hf => ?_)
    obtain ⟨i, hi⟩ := List.mem_iff_getElem?.mp hf
    obtain ⟨hkey, rfl⟩ := hkeys i _ hi
    rw [← hitems, List.getElem?_map, hi] at hkey
    cases hkey
    rfl
  rwa [← hfs]

/-- At a path that does not break keys are found, or found missing. -/
theorem findsAll_path (p : String) (hlists : s.store.Lists a xs)
    (hunbroken : Path.Unbroken s xs (.str p)) :
    ∃ fs t, FindsAll caller (.path (.str p)) a fs s t ∧ s.Extends t ∧ fs.map Found.item = xs := by
  have hfind : ∀ t, s.Extends t → ∀ i (hi : i < xs.length), ∃ k u,
      ((Key.path (.str p)).find caller xs[i] i).execute t = (.ok k, u) ∧ s.Extends u ∧ True := by
    intro t ht i hi
    obtain ⟨k, u, hrun⟩ := hunbroken.value_ok ht (List.getElem_mem hi)
    exact ⟨k, u, hrun, ht.trans ((Path.obeys_value xs[i] (.str p)).of_execute hrun), trivial⟩
  obtain ⟨fs, t, hfinds, ht, hitems, -⟩ := exists_findsAll s.Extends (fun _ _ _ => True)
    (fun t ht => hlists.extends ht) hfind (.refl s)
  exact ⟨fs, t, hfinds, ht, hitems⟩

/-- A visit that goes on with each key, and does nothing else, does what is done with the keys that
are found. -/
theorem FindsAll.execute_fold {σ : Type} (h : FindsAll caller key a fs s t)
    (step : Store → σ → Value → Value → Except Error σ) (init : σ) :
    ∃ u, (fold a init fun state item i => do
        let k ← key.find caller item i
        Action.look fun r => step r state k item).execute s =
      (fs.foldlM (fun state f => step f.store state f.key f.item) init, u) ∧
      ∀ last, fs.foldlM (fun state f => step f.store state f.key f.item) init = .ok last →
        u = t := by
  obtain ⟨hfinding, xs, ⟨c, hholds⟩, hbound⟩ := h
  unfold fold source Source.fold Source.visit
  rw [bind_assoc, Action.execute_bind_of_ok (execute_itemsOf hholds), pure_bind]
  dsimp only
  generalize xs.length + growth = fuel at hbound
  clear hholds
  generalize 0 = i at hfinding ⊢
  induction hfinding generalizing fuel init with
  | done hlists hend =>
    obtain ⟨fuel, rfl⟩ := Nat.exists_eq_succ_of_ne_zero (Nat.ne_of_gt (Nat.zero_lt_of_lt hbound))
    obtain ⟨d, hholds⟩ := hlists
    refine ⟨_, ?_, fun _ _ => rfl⟩
    rw [Source.visitFrom, bind_assoc, Action.execute_bind_of_ok (execute_itemsOf hholds), pure_bind,
      List.getElem?_eq_none hend]
    rfl
  | @next i ys v k fs s' t' u' hlists hitem hkey hrest ih =>
    obtain ⟨fuel, rfl⟩ := Nat.exists_eq_succ_of_ne_zero (Nat.ne_of_gt (Nat.zero_lt_of_lt hbound))
    obtain ⟨d, hholds⟩ := hlists
    rw [Source.visitFrom, bind_assoc, Action.execute_bind_of_ok (execute_itemsOf hholds), pure_bind,
      hitem]
    dsimp only
    rw [bind_assoc, bind_assoc, Action.execute_bind_of_ok hkey, List.foldlM_cons,
      Action.execute_bind, Action.execute_look]
    cases hstep : step t'.store init k v with
    | error e => exact ⟨t', rfl, fun _ hlast => by cases hlast⟩
    | ok next => exact ih next fuel (Nat.lt_of_succ_lt_succ hbound)

/-- A collection of numbers and lists, and one without items. -/
def numbersAndLists : State where
  store := { cells := #[
    .policy {},
    .registry {},
    .generator ⟨0⟩,
    .dict [],
    .list [.int 1, .ref ⟨6⟩, .bool true, .ref ⟨7⟩],
    .collection
      { list := ⟨4⟩, validators := ⟨3⟩, policy := ⟨0⟩, registry := ⟨1⟩, generator := ⟨2⟩ },
    .list [.int 1],
    .list [.int 1],
    .list [],
    .collection
      { list := ⟨8⟩, validators := ⟨3⟩, policy := ⟨0⟩, registry := ⟨1⟩, generator := ⟨2⟩ }] }

end Collection

end Recordset
