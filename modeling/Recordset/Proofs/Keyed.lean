import Recordset.Proofs.Equality
set_option autoImplicit false

/-!
# Mappings whose keys are told apart

What a mapping has as a key can be one, and no two keys of a mapping are equal (`Store.Keyed`).  A
key is compared by what does not change, so keys that are told apart now are told apart later,
within whatever bound they are compared (`State.KeepsMappings.apart`).  Mappings with the same keys
are then equal when their values are (`Store.entriesEqual_of_keys`).
-/

namespace Recordset

/-! ## Keys that stay apart -/

/-- The entries of a mapping. -/
def Cell.entries? : Cell → Option Entries
  | .dict es | .frozen es => some es
  | _ => none

/-- What mappings have as keys can be keys, and no two keys of a mapping are equal. -/
def Store.Keyed (s : Store) : Prop :=
  ∀ c ∈ s.cells.toList, ∀ es ∈ c.entries?, (∀ e ∈ es, s.isKey e.1 = true) ∧
    (es.map (·.1)).Pairwise fun k l => s.sameKey k l = false

instance (s : Store) : Decidable s.Keyed := inferInstanceAs (Decidable (∀ _ ∈ _, _))

namespace Store

variable {s : Store} {eq eq' : Value → Value → Except Error Bool} {a b k v w : Value}
  {c c' d d' : Cell} {es fs gs : Entries}

theorem Keyed.entries (h : s.Keyed) (hes : s.entries? v = some es) :
    (∀ e ∈ es, s.isKey e.1 = true) ∧ (es.map (·.1)).Pairwise fun k l => s.sameKey k l = false := by
  have hcell : ∀ (c : Cell), s.view v = some c → c ∈ s.cells.toList := by
    intro c hc
    cases v with
    | ref a => exact Array.mem_toList_iff.mpr (Array.mem_of_getElem? hc)
    | _ => cases hc
  rcases view_of_entries? hes with hview | hview
  · exact h _ (hcell _ hview) es rfl
  · exact h _ (hcell _ hview) es rfl

/-- Values that can be keys are compared as they are unless both have a cell. -/
theorem equalAt_of_isKeyKind (ha : s.isKeyKind a = true) (hb : s.isKeyKind b = true)
    (hnone : s.view a = none ∨ s.view b = none) (fuel : Nat) :
    s.equalAt (fuel + 1) a b = ({} : Store).equalAt 1 a b := by
  have hempty : ∀ v : Value, ({} : Store).view v = none := fun v => by cases v <;> rfl
  unfold equalAt
  rw [hempty, hempty]
  split
  · rfl
  · rcases hnone with hnone | hnone
    · rw [hnone]
      cases hd : s.view b with
      | none => rfl
      | some d =>
        rw [isKeyKind_of_view hd] at hb
        cases d <;> first | rfl | cases hb
    · rw [hnone]
      cases hc : s.view a with
      | none => rfl
      | some c =>
        rw [isKeyKind_of_view hc] at ha
        cases c <;> first | rfl | cases ha

/-- What a comparison walks into from a key is a key. -/
theorem isKeyAt_of_inner {bound : Nat} {items : Collection → List Value} (hclosed : s.Closed)
    (hview : s.view v = some c) (hkey : s.isKeyAt (bound + 1) v = true) (hw : w ∈ c.inner items) :
    s.Knows w ∧ s.isKeyAt bound w = true := by
  rw [isKeyAt_of_view hview, Bool.and_eq_true, List.all_eq_true] at hkey
  obtain ⟨hkind, hparts⟩ := hkey
  have hknows : ∀ x ∈ c.parts, s.Knows x := by
    intro x hx
    cases v with
    | ref a => exact hclosed.knows hview hx
    | _ => cases hview
  cases c with
  | tuple xs => exact ⟨hknows w hw, hparts w hw⟩
  | policy p =>
    have hpart : ∀ x ∈ [p.perPage, p.separator, p.seed], s.Knows x ∧ s.isKeyAt bound x = true :=
      fun x hx => ⟨hknows x hx, hparts x hx⟩
    simp only [Cell.inner, List.mem_cons, List.not_mem_nil, or_false] at hw
    rcases hw with rfl | rfl | rfl | rfl
    · exact hpart _ (by simp)
    · exact hpart _ (by simp)
    · refine ⟨trivial, ?_⟩
      cases bound with
      | zero => cases (hpart p.perPage (by simp)).2
      | succ bound => rfl
    · exact hpart _ (by simp)
  | list | dict | frozen | set | collection => cases hkind
  | _ => cases hw

/-- Keys that are equal by what becomes of their cells are equal by their cells. -/
theorem cellsEqual_of_becomes {items items' : Collection → List Value} (hc : c.isKeyKind = true)
    (hd : d.isKeyKind = true) (hcc : c.Becomes c') (hdd : d.Becomes d')
    (hinner : ∀ x ∈ c.inner items', ∀ y ∈ d.inner items',
      sameOr eq x y = .ok true → sameOr eq' x y = .ok true)
    (h : cellsEqual items eq false c' d' = .ok true) :
    cellsEqual items' eq' false c d = .ok true := by
  unfold cellsEqual at h
  split at h
  case h_4 xs ys =>
    cases hcc
    cases hdd
    obtain ⟨hall, hlength⟩ := tuplesEqual_iff.mp h
    exact tuplesEqual_iff.mpr ⟨allEqual_mono hinner hall, hlength⟩
  case h_15 =>
    cases hcc
    cases hdd
    exact allEqual_mono hinner h
  -- the other kinds are no keys, or are only the same as themselves
  all_goals first
    | cases h
    | (cases hcc <;> cases hc <;> done)
    | (cases hdd <;> cases hd)

end Store

namespace State

variable {s u : State}

/-- Keys that are equal later, within whatever bound, are equal now. -/
theorem Evolves.sameOr_key (h : s.Evolves u) (hclosed : s.store.Closed) :
    ∀ (fuel bound : Nat) {a b : Value}, s.store.Knows a → s.store.Knows b →
      s.store.isKeyAt bound a = true → s.store.isKeyAt bound b = true →
      Store.sameOr (u.store.equalAt fuel) a b = .ok true →
      Store.sameOr (s.store.equalAt bound) a b = .ok true := by
  intro fuel
  induction fuel with
  | zero =>
    intro bound a b _ _ _ _ heq
    cases hsame : a.same b with
    | true => exact Store.sameOr_of_same hsame
    | false =>
      rw [Store.sameOr_of_not_same hsame] at heq
      cases heq
  | succ fuel ih =>
    intro bound a b ha hb hkeya hkeyb heq
    cases hsame : a.same b with
    | true => exact Store.sameOr_of_same hsame
    | false =>
      rw [Store.sameOr_of_not_same hsame] at heq ⊢
      obtain ⟨bound, rfl⟩ : ∃ m, bound = m + 1 := by
        cases bound with
        | zero => cases hkeya
        | succ bound => exact ⟨bound, rfl⟩
      have hkinda := Store.isKeyKind_of_isKeyAt hkeya
      have hkindb := Store.isKeyKind_of_isKeyAt hkeyb
      have hnone : (s.store.view a = none ∧ u.store.view a = none ∨
          s.store.view b = none ∧ u.store.view b = none) →
          s.store.equalAt (bound + 1) a b = .ok true := by
        intro hviews
        rw [Store.equalAt_of_isKeyKind hkinda hkindb (hviews.imp And.left And.left)]
        rw [Store.equalAt_of_isKeyKind ((h.isKeyKind ha).trans hkinda)
          ((h.isKeyKind hb).trans hkindb) (hviews.imp And.right And.right)] at heq
        exact heq
      rcases h.view ha with hviews | ⟨c, c', hc, hc', hcc⟩
      · exact hnone (.inl hviews)
      · rcases h.view hb with hviews | ⟨d, d', hd, hd', hdd⟩
        · exact hnone (.inr hviews)
        · rw [Store.equalAt_of_view hc' hd', hsame] at heq
          rw [Store.equalAt_of_view hc hd, hsame]
          rw [Store.isKeyKind_of_view hc] at hkinda
          rw [Store.isKeyKind_of_view hd] at hkindb
          refine Store.cellsEqual_of_becomes hkinda hkindb hcc hdd (fun x hx y hy => ?_) heq
          obtain ⟨hx, hkeyx⟩ := Store.isKeyAt_of_inner hclosed hc hkeya hx
          obtain ⟨hy, hkeyy⟩ := Store.isKeyAt_of_inner hclosed hd hkeyb hy
          exact ih bound hx hy hkeyx hkeyy

/-- Keys of a mapping stay apart, within whatever bound they are compared. -/
theorem KeepsMappings.apart (h : s.KeepsMappings u) (hclosed : s.store.Closed)
    (hkeyed : s.store.Keyed) {v : Value} {es : Entries} (hes : s.store.entries? v = some es)
    (fuel : Nat) :
    (es.map (·.1)).Pairwise fun k l =>
      Store.succeeds (Store.sameOr (u.store.equalAt fuel) k l) = false := by
  obtain ⟨hkeys, hapart⟩ := hkeyed.entries hes
  refine hapart.imp_of_mem fun {k l} hk hl hkl => ?_
  obtain ⟨e, he, rfl⟩ := List.mem_map.mp hk
  obtain ⟨f, hf, rfl⟩ := List.mem_map.mp hl
  cases heq : Store.sameOr (u.store.equalAt fuel) e.1 f.1 with
  | error err => rfl
  | ok b =>
    cases b with
    | false => rfl
    | true =>
      have hnow := h.evolves.sameOr_key hclosed fuel s.store.depth (hclosed.knows_entry hes he).1
        (hclosed.knows_entry hes hf).1 (hkeys e he) (hkeys f hf) heq
      rw [← hkl]
      unfold Store.sameKey Store.matchesElement Store.equal
      rw [hnow]

end State

/-! ## Mappings with the same keys -/

namespace Store

variable {eq : Value → Value → Except Error Bool} {fs gs : Entries} {k x y : Value}

/-- Where no two keys are equal, a value is found under its key. -/
theorem findBy_of_mem (hapart : (gs.map (·.1)).Pairwise fun k l => succeeds (sameOr eq k l) = false)
    (hmem : (k, y) ∈ gs) : findBy eq gs k = some y := by
  unfold findBy
  induction gs with
  | nil => cases hmem
  | cons e gs ih =>
    obtain ⟨hfirst, hrest⟩ := List.pairwise_cons.mp hapart
    rcases List.mem_cons.mp hmem with rfl | hmem
    · rw [List.find?_cons_of_pos]
      · rfl
      · rw [sameOr_of_same (Value.same_refl k)]
        rfl
    · rw [List.find?_cons_of_neg]
      · exact ih hrest hmem
      · rw [hfirst k (List.mem_map.mpr ⟨_, hmem, rfl⟩)]
        exact Bool.false_ne_true

/-- Mappings are equal that have the same keys, no two of them equal, and equal values under
them. -/
theorem entriesEqual_of_keys (hkeys : fs.map (·.1) = gs.map (·.1))
    (hapart : (gs.map (·.1)).Pairwise fun k l => succeeds (sameOr eq k l) = false)
    (hvalues : ∀ k x y, (k, x) ∈ fs → (k, y) ∈ gs → sameOr eq y x = .ok true) :
    entriesEqual eq fs gs = .ok true := by
  have hlength : fs.length = gs.length := by
    simpa using congrArg List.length hkeys
  have hwithin : ∀ hs : Entries, (∀ e ∈ hs, e ∈ fs) → entriesWithin eq gs hs = .ok true := by
    intro hs hsub
    induction hs with
    | nil => rfl
    | cons e hs ih =>
      obtain ⟨k, x⟩ := e
      have hx := hsub _ List.mem_cons_self
      have hthere : k ∈ gs.map (·.1) := by
        rw [← hkeys]
        exact List.mem_map.mpr ⟨_, hx, rfl⟩
      obtain ⟨⟨l, y⟩, hy, hkey⟩ := List.mem_map.mp hthere
      obtain rfl : l = k := hkey
      rw [entriesWithin, findBy_of_mem hapart hy]
      dsimp only
      rw [hvalues l x y hx hy]
      exact ih fun e he => hsub e (List.mem_cons_of_mem _ he)
  unfold entriesEqual
  rw [if_pos hlength]
  exact hwithin fs fun _ h => h

end Store

end Recordset
