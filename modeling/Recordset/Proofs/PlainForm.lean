import Mathlib.Data.List.Forall2
import Recordset.Proofs.Keyed
import Recordset.Proofs.Plain
set_option autoImplicit false

/-!
# The plain form of a value

A plain form of a value has lists in place of the lists, tuples and collections, mappings in place
of the mappings, and what it keeps stands where it stood: elements in their order, values under
their keys, everything that is no container as it is (`PlainForm`).  Plain forms are composed
(`PlainForm.trans`), and two of the same value are equal (`PlainForm.same_or_equalAt`).

What a value is rebuilt as is a plain form of it (`Action.plainForm_of_plain`).  Rebuilding that
once more gives a plain form of a plain form, which is equal to it (`Action.plain_twice`).
-/

namespace Recordset

/-! ## What is made later -/

/-- Making a cell that holds known values leaves a closed store closed. -/
theorem Store.Closed.alloc {s : Store} {c : Cell} (h : s.Closed)
    (hc : ∀ x ∈ c.parts, s.Knows x) : (s.alloc c).2.Closed := by
  have hknows : ∀ x, s.Knows x → (s.alloc c).2.Knows x := by
    intro x hx
    cases x with
    | ref a =>
      have hsize : (s.alloc c).2.size = s.size + 1 := Array.size_push c
      exact Nat.lt_of_lt_of_eq (Nat.lt_succ_of_lt hx) hsize.symm
    | _ => trivial
  intro d hd x hx
  have hcells : (s.alloc c).2.cells.toList = s.cells.toList ++ [c] := Array.toList_push
  rw [hcells, List.mem_append, List.mem_singleton] at hd
  rcases hd with hd | rfl
  · exact hknows x (h d hd x hx)
  · exact hknows x (hc x hx)

/-- What is known is known later. -/
theorem State.Later.knows {s t : State} {v : Value} (h : s.Later t) (hv : s.store.Knows v) :
    t.store.Knows v := by
  cases v with
  | ref a => exact Nat.lt_of_lt_of_le hv h.size_le
  | _ => trivial

/-! ## Plain forms -/

/-- What `w` is in the store `t` is a plain form of what `v` is in the store `s`. -/
inductive PlainForm (s t : Store) : (v w : Value) → Prop where
  /-- What is no container is its own plain form. -/
  | itself {v : Value} (hview : t.view v = s.view v)
    (hv : ∀ c, s.view v = some c → c.isContainer = false) : PlainForm s t v v
  /-- A list of plain forms, in the order of the elements or items. -/
  | list {v : Value} {b : Address} {xs ys : List Value}
    (hxs : Action.plainItems? s v = some xs) (hys : t.cell? b = some (.list ys))
    (hlength : xs.length = ys.length)
    (hitems : ∀ i (hi : i < xs.length) (hj : i < ys.length), PlainForm s t xs[i] ys[i]) :
    PlainForm s t v (.ref b)
  /-- A mapping of plain forms, under the same keys in the same order. -/
  | mapping {v : Value} {b : Address} {es fs : Entries}
    (hes : s.entries? v = some es) (hfs : t.cell? b = some (.dict fs))
    (hkeys : es.map (·.1) = fs.map (·.1))
    (hvalues : ∀ i (hi : i < es.length) (hj : i < fs.length), PlainForm s t es[i].2 fs[i].2) :
    PlainForm s t v (.ref b)

theorem Entries.length_eq_of_keys {es fs : Entries} (hkeys : es.map (·.1) = fs.map (·.1)) :
    es.length = fs.length := by
  simpa using congrArg List.length hkeys

namespace PlainForm

section

variable {s t u : Store} {v w x : Value} {es : Entries} {xs : List Value}

/-- Nesting ends in a value that has a plain form. -/
theorem nestingEnds (h : PlainForm s t v w) : s.NestingEnds v := by
  induction h with
  | itself hview hv =>
    refine .intro _ fun x hx => ?_
    rw [Store.content_of_no_container hv] at hx
    cases hx
  | list hxs hys hlength hitems ih =>
    refine .intro _ fun x hx => ?_
    rw [Store.content_of_plainItems hxs] at hx
    obtain ⟨i, hi, rfl⟩ := List.mem_iff_getElem.mp hx
    exact ih i hi (hlength ▸ hi)
  | mapping hes hfs hkeys hvalues ih =>
    refine .intro _ fun x hx => ?_
    rw [Store.content_of_entries hes] at hx
    obtain ⟨e, he, rfl⟩ := List.mem_map.mp hx
    obtain ⟨i, hi, rfl⟩ := List.mem_iff_getElem.mp he
    exact ih i hi (Entries.length_eq_of_keys hkeys ▸ hi)

/-- A plain form is the plain form of itself. -/
theorem self (h : PlainForm s t v w) : PlainForm t t w w := by
  induction h with
  | itself hview hv => exact .itself rfl (hview ▸ hv)
  | list hxs hys hlength hitems ih =>
    exact .list (Store.plainItems?_of_list hys) hys rfl fun i hi _ => ih i (hlength ▸ hi) hi
  | mapping hes hfs hkeys hvalues ih =>
    exact .mapping (Store.entries?_of_dict hfs) hfs rfl fun i hi _ =>
      ih i (Entries.length_eq_of_keys hkeys ▸ hi) hi

/-- What is no container has no plain form but itself. -/
theorem of_no_container (h : PlainForm s t v w)
    (hv : ∀ c, s.view v = some c → c.isContainer = false) : w = v ∧ t.view v = s.view v := by
  cases h with
  | itself hview => exact ⟨rfl, hview⟩
  | list hxs => cases (Store.plainItems?_of_no_container hv).symm.trans hxs
  | mapping hes => cases (Store.entries?_of_no_container hv).symm.trans hes

/-- The plain form of a list, a tuple or a collection is a list. -/
theorem of_plainItems (h : PlainForm s t v w) (hxs : Action.plainItems? s v = some xs) :
    ∃ b ys, w = .ref b ∧ t.cell? b = some (.list ys) ∧ xs.length = ys.length ∧
      ∀ i (hi : i < xs.length) (hj : i < ys.length), PlainForm s t xs[i] ys[i] := by
  cases h with
  | itself hview hv => cases (Store.plainItems?_of_no_container hv).symm.trans hxs
  | list hxs' hys hlength hitems =>
    obtain rfl := Option.some.inj (hxs'.symm.trans hxs)
    exact ⟨_, _, rfl, hys, hlength, hitems⟩
  | mapping hes => cases (Store.entries?_of_plainItems hxs).symm.trans hes

/-- The plain form of a mapping is a mapping with the same keys. -/
theorem of_entries (h : PlainForm s t v w) (hes : s.entries? v = some es) :
    ∃ b fs, w = .ref b ∧ t.cell? b = some (.dict fs) ∧ es.map (·.1) = fs.map (·.1) ∧
      ∀ i (hi : i < es.length) (hj : i < fs.length), PlainForm s t es[i].2 fs[i].2 := by
  cases h with
  | itself hview hv => cases (Store.entries?_of_no_container hv).symm.trans hes
  | list hxs => cases (Store.entries?_of_plainItems hxs).symm.trans hes
  | mapping hes' hfs hkeys hvalues =>
    obtain rfl := Option.some.inj (hes'.symm.trans hes)
    exact ⟨_, _, rfl, hfs, hkeys, hvalues⟩

/-- A plain form of a plain form is a plain form of the value. -/
theorem trans (h : PlainForm s t v w) (h' : PlainForm t u w x) : PlainForm s u v x := by
  induction h generalizing x with
  | itself hview hv =>
    obtain ⟨rfl, hview'⟩ := h'.of_no_container (hview ▸ hv)
    exact .itself (hview'.trans hview) hv
  | list hxs hys hlength hitems ih =>
    obtain ⟨c, zs, rfl, hzs, hlength', hitems'⟩ :=
      h'.of_plainItems (Store.plainItems?_of_list hys)
    exact .list hxs hzs (hlength.trans hlength') fun i hi hk =>
      ih i hi (hlength ▸ hi) (hitems' i (hlength ▸ hi) hk)
  | mapping hes hfs hkeys hvalues ih =>
    obtain ⟨c, gs, rfl, hgs, hkeys', hvalues'⟩ := h'.of_entries (Store.entries?_of_dict hfs)
    have hlength := Entries.length_eq_of_keys hkeys
    exact .mapping hes hgs (hkeys.trans hkeys') fun i hi hk =>
      ih i hi (hlength ▸ hi) (hvalues' i (hlength ▸ hi) hk)

end

section

variable {s t u : State} {v w : Value}

/-- The plain form of a known value has been made. -/
theorem knows (h : PlainForm s.store t.store v w) (ht : s.Later t) (hv : s.store.Knows v) :
    t.store.Knows w := by
  cases h with
  | itself => exact ht.knows hv
  | list _ hys => exact Store.index_lt_of_cell? hys
  | mapping _ hfs => exact Store.index_lt_of_cell? hfs

/-- The plain form of a known value is still one later. -/
theorem later (hclosed : s.store.Closed) (ht : s.Later t) (hu : t.Later u)
    (h : PlainForm s.store t.store v w) (hv : s.store.Knows v) :
    PlainForm s.store u.store v w := by
  induction h with
  | itself hview hleaf => exact .itself ((ht.trans hu).view_of_knows hv) hleaf
  | list hxs hys hlength hitems ih =>
    refine .list hxs (hu.grows.cells _ _ hys) hlength fun i hi hj => ih i hi hj ?_
    exact Action.knows_of_mem_plainItems hclosed hxs (List.getElem_mem hi)
  | mapping hes hfs hkeys hvalues ih =>
    refine .mapping hes (hu.grows.cells _ _ hfs) hkeys fun i hi hj => ih i hi hj ?_
    exact (hclosed.knows_entry hes (List.getElem_mem hi)).2

end

end PlainForm

/-! ## Plain forms of one value -/

namespace Store

variable {eq : Value → Value → Except Error Bool} {xs ys : List Value} {fs gs : Entries}

/-- Lists are equal that hold equal elements at the same positions. -/
theorem itemsEqual_of_getElem (hlength : xs.length = ys.length)
    (hitems : ∀ i (hi : i < xs.length) (hj : i < ys.length), sameOr eq xs[i] ys[i] = .ok true) :
    itemsEqual eq xs ys = .ok true := by
  unfold itemsEqual
  rw [if_pos hlength]
  induction xs generalizing ys with
  | nil => rfl
  | cons x xs ih =>
    cases ys with
    | nil => rfl
    | cons y ys =>
      have hfirst : sameOr eq x y = .ok true := hitems 0 (Nat.succ_pos _) (Nat.succ_pos _)
      rw [allEqual, hfirst]
      exact ih (Nat.succ.inj hlength) fun i hi hj =>
        hitems (i + 1) (Nat.succ_lt_succ hi) (Nat.succ_lt_succ hj)

/-- Mappings are equal that have the same keys in the same order, no two of them equal, and equal
values at the same positions. -/
theorem entriesEqual_of_getElem (hkeys : fs.map (·.1) = gs.map (·.1))
    (hapart : (gs.map (·.1)).Pairwise fun k l => succeeds (sameOr eq k l) = false)
    (hvalues : ∀ i (hi : i < fs.length) (hj : i < gs.length),
      sameOr eq gs[i].2 fs[i].2 = .ok true) :
    entriesEqual eq fs gs = .ok true := by
  refine entriesEqual_of_keys hkeys hapart fun k x y hx hy => ?_
  -- the value under a key is the one at the key's position in either mapping
  obtain ⟨i, hi, hfi⟩ := List.mem_iff_getElem.mp hx
  have hj : i < gs.length := Entries.length_eq_of_keys hkeys ▸ hi
  have hkey : gs[i].1 = k := by
    have hpair : (fs.map (·.1))[i]? = (gs.map (·.1))[i]? := congrArg (·[i]?) hkeys
    rw [List.getElem?_map, List.getElem?_map, List.getElem?_eq_getElem hi,
      List.getElem?_eq_getElem hj, hfi] at hpair
    exact (Option.some.inj hpair).symm
  have hfound : some gs[i].2 = some y := by
    rw [← findBy_of_mem hapart hy]
    exact (findBy_of_mem hapart (hkey ▸ List.getElem_mem hj)).symm
  have hvalue := hvalues i hi hj
  rw [hfi, Option.some.inj hfound] at hvalue
  exact hvalue

end Store

/-- Two plain forms of one value are the same or equal, within a bound that its nesting keeps to. -/
theorem PlainForm.same_or_equalAt {s t : State} (hclosed : s.store.Closed)
    (hkeyed : s.store.Keyed) (ht : s.KeepsMappings t) (bound : Nat) :
    ∀ {v x y : Value}, NestsWithin (fun outer inner => inner ∈ s.store.content outer) bound v →
      PlainForm s.store t.store v x → PlainForm s.store t.store v y →
      x = y ∨ t.store.equalAt bound x y = .ok true := by
  induction bound with
  | zero => exact fun hnests => hnests.elim
  | succ bound ih =>
    intro v x y hnests hx hy
    have hinner : ∀ {v x y : Value},
        NestsWithin (fun outer inner => inner ∈ s.store.content outer) bound v →
        PlainForm s.store t.store v x → PlainForm s.store t.store v y →
        Store.sameOr (t.store.equalAt bound) x y = .ok true := by
      intro v x y hnests hx hy
      rcases ih hnests hx hy with rfl | hequal
      · exact Store.sameOr_of_same (Value.same_refl _)
      · exact Store.sameOr_of_eq hequal
    cases hx with
    | itself hview hleaf => exact .inl (hy.of_no_container hleaf).1.symm
    | @list _ b xs ys hxs hys hlength hitems =>
      obtain ⟨c, zs, rfl, hzs, hlength', hitems'⟩ := hy.of_plainItems hxs
      have hx : t.store.view (.ref b) = some (.list ys) := hys
      have hy : t.store.view (.ref c) = some (.list zs) := hzs
      refine .inr ((Store.equalAt_of_view hx hy bound).trans ?_)
      refine Store.itemsEqual_of_getElem (hlength.symm.trans hlength') fun i hi hj => ?_
      have hinside := Store.mem_content_of_plainItems hxs (List.getElem_mem (hlength ▸ hi))
      exact hinner (hnests _ hinside) (hitems i _ hi) (hitems' i _ hj)
    | @mapping _ b es fs hes hfs hkeys hvalues =>
      obtain ⟨c, gs, rfl, hgs, hkeys', hvalues'⟩ := hy.of_entries hes
      have hx : t.store.view (.ref b) = some (.dict fs) := hfs
      have hy : t.store.view (.ref c) = some (.dict gs) := hgs
      refine .inr ((Store.equalAt_of_view hx hy bound).trans ?_)
      refine Store.entriesEqual_of_getElem (hkeys.symm.trans hkeys') ?_ fun i hi hj => ?_
      · rw [← hkeys']
        exact ht.apart hclosed hkeyed hes bound
      · have hlength := Entries.length_eq_of_keys hkeys
        have hinside := Store.mem_content_of_entries hes (List.getElem_mem (hlength ▸ hi))
        exact hinner (hnests _ hinside) (hvalues' i _ hj) (hvalues i _ hi)

/-! ## Rebuilding gives a plain form -/

namespace Action

variable {s t u : State} {v w : Value}

/-- An action that succeeds gives a plain form of a value and keeps the store closed. -/
def GivesPlainForm (s : State) (v : Value) (x : Action Value) : Prop :=
  ∀ t w u, s.Later t → t.store.Closed → x.execute t = (.ok w, u) →
    t.Later u ∧ u.store.Closed ∧ PlainForm s.store u.store v w

theorem plainForm_of_plainAll {plain : Value → Action Value} (hclosed : s.store.Closed)
    {vs ws : List Value} (hplain : ∀ v ∈ vs, s.store.Knows v ∧ GivesPlainForm s v (plain v))
    (ht : s.Later t) (htclosed : t.store.Closed)
    (hrun : (plainAll plain vs).execute t = (.ok ws, u)) :
    t.Later u ∧ u.store.Closed ∧ List.Forall₂ (PlainForm s.store u.store) vs ws := by
  induction vs generalizing t ws with
  | nil =>
    cases hrun
    exact ⟨.refl _, htclosed, .nil⟩
  | cons v vs ih =>
    obtain ⟨hknows, hfirst⟩ := hplain v List.mem_cons_self
    rw [plainAll] at hrun
    obtain ⟨w, t', hw, hrun⟩ := execute_bind_ok hrun
    obtain ⟨ws', u', hws, hrun⟩ := execute_bind_ok hrun
    cases hrun
    obtain ⟨ht', hclosed', hform⟩ := hfirst t w t' ht htclosed hw
    obtain ⟨hu, huclosed, hforms⟩ :=
      ih (fun x hx => hplain x (List.mem_cons_of_mem v hx)) (ht.trans ht') hclosed' hws
    exact ⟨ht'.trans hu, huclosed, .cons (hform.later hclosed (ht.trans ht') hu hknows) hforms⟩

theorem plainForm_of_plainEntries {plain : Value → Action Value} (hclosed : s.store.Closed)
    {es fs : Entries}
    (hplain : ∀ v ∈ es.map (·.2), s.store.Knows v ∧ GivesPlainForm s v (plain v))
    (ht : s.Later t) (htclosed : t.store.Closed)
    (hrun : (plainEntries plain es).execute t = (.ok fs, u)) :
    t.Later u ∧ u.store.Closed ∧ es.map (·.1) = fs.map (·.1) ∧
      List.Forall₂ (PlainForm s.store u.store) (es.map (·.2)) (fs.map (·.2)) := by
  rw [plainEntries_eq] at hrun
  obtain ⟨ws, t', hws, hrun⟩ := execute_bind_ok hrun
  cases hrun
  obtain ⟨hu, huclosed, hforms⟩ := plainForm_of_plainAll hclosed hplain ht htclosed hws
  have hlength : (es.map (·.1)).length = ws.length := by
    rw [← hforms.length_eq, List.length_map, List.length_map]
  refine ⟨hu, huclosed, (List.map_fst_zip (Nat.le_of_eq hlength)).symm, ?_⟩
  rwa [List.map_snd_zip (Nat.le_of_eq hlength.symm)]

/-- Plain forms of known values are known. -/
theorem knows_of_plainForms {vs ws : List Value} (ht : s.Later t)
    (hforms : List.Forall₂ (PlainForm s.store t.store) vs ws)
    (hvs : ∀ v ∈ vs, s.store.Knows v) : ∀ w ∈ ws, t.store.Knows w := by
  intro w hw
  obtain ⟨i, hi, rfl⟩ := List.mem_iff_getElem.mp hw
  have hi' : i < vs.length := hforms.length_eq ▸ hi
  exact (hforms.get hi' hi).knows ht (hvs _ (List.getElem_mem hi'))

/-- A known value is rebuilt as a plain form of it. -/
theorem givesPlainForm_plainAt (hclosed : s.store.Closed) (fuel : Nat) :
    ∀ v, s.store.Knows v → GivesPlainForm s v (plainAt fuel v) := by
  induction fuel with
  | zero =>
    intro v _ t w u _ _ hrun
    cases hrun
  | succ fuel ih =>
    intro v hv t w u ht htclosed hrun
    rw [plainAt, execute_get_bind] at hrun
    dsimp only at hrun
    rw [ht.entries?_of_knows hv, plainItems?_later hclosed ht hv] at hrun
    cases hes : s.store.entries? v with
    | some es =>
      rw [hes] at hrun
      obtain ⟨fs, t', hfs, hrun⟩ := execute_bind_ok hrun
      cases hrun
      have hvalues : ∀ x ∈ es.map (·.2), s.store.Knows x :=
        List.forall_mem_map.mpr fun e he => (hclosed.knows_entry hes he).2
      obtain ⟨ht', hclosed', hkeys, hforms⟩ := plainForm_of_plainEntries hclosed
        (fun x hx => ⟨hvalues x hx, ih x (hvalues x hx)⟩) ht htclosed hfs
      have hparts : ∀ x ∈ (Cell.dict fs).parts, t'.store.Knows x := by
        intro x hx
        obtain ⟨f, hf, hx⟩ := List.mem_flatMap.mp hx
        rcases List.mem_pair.mp hx with rfl | rfl
        · have hkey : f.1 ∈ es.map (·.1) := hkeys ▸ List.mem_map_of_mem hf
          obtain ⟨e, he, hfirst⟩ := List.mem_map.mp hkey
          exact hfirst ▸ (ht.trans ht').knows (hclosed.knows_entry hes he).1
        · exact knows_of_plainForms (ht.trans ht') hforms hvalues _ (List.mem_map_of_mem hf)
      refine ⟨ht'.trans (t'.later_alloc _), hclosed'.alloc hparts,
        .mapping hes (t'.store.cell?_alloc _) hkeys fun i hi hj => ?_⟩
      have hpairs := List.forall₂_map_left_iff.mp (List.forall₂_map_right_iff.mp hforms)
      exact (hpairs.get hi hj).later hclosed (ht.trans ht') (t'.later_alloc _)
        (hvalues _ (List.mem_map_of_mem (List.getElem_mem hi)))
    | none =>
      cases hxs : plainItems? s.store v with
      | some xs =>
        rw [hes, hxs] at hrun
        obtain ⟨ws, t', hws, hrun⟩ := execute_bind_ok hrun
        cases hrun
        have hknows := fun x (hx : x ∈ xs) => knows_of_mem_plainItems hclosed hxs hx
        obtain ⟨ht', hclosed', hforms⟩ := plainForm_of_plainAll hclosed
          (fun x hx => ⟨hknows x hx, ih x (hknows x hx)⟩) ht htclosed hws
        refine ⟨ht'.trans (t'.later_alloc _),
          hclosed'.alloc (knows_of_plainForms (ht.trans ht') hforms hknows),
          .list hxs (t'.store.cell?_alloc _) hforms.length_eq fun i hi hj => ?_⟩
        exact (hforms.get hi hj).later hclosed (ht.trans ht') (t'.later_alloc _)
          (hknows _ (List.getElem_mem hi))
      | none =>
        rw [hes, hxs] at hrun
        cases hrun
        exact ⟨.refl t, htclosed, .itself (ht.view_of_knows hv) fun c hc =>
          isContainer_of_not_rebuilt hc hes hxs⟩

/-- A known value is rebuilt as a plain form of it, and the value stays as it is. -/
theorem plainForm_of_plain (hclosed : s.store.Closed) (hv : s.store.Knows v)
    (hrun : (plain v).execute s = (.ok w, t)) :
    s.Later t ∧ t.store.Closed ∧ PlainForm s.store t.store v w := by
  rw [execute_plain] at hrun
  exact givesPlainForm_plainAt hclosed s.store.depth v hv s w t (.refl s) hclosed hrun

/-- A value in which nesting ends is rebuilt as a plain form of it, in which no collection, no
tuple and no read-only mapping lies, and stays as it is.  What it has been rebuilt as is rebuilt as
a value that is the same or equal. -/
theorem plain_twice (hclosed : s.store.Closed) (hkeyed : s.store.Keyed) (hv : s.store.Knows v)
    (hends : s.store.NestingEnds v) :
    ∃ w t w' u, (plain v).execute s = (.ok w, t) ∧ s.Later t ∧
      (∀ x c, t.store.LiesIn w x → t.store.view x = some c → c.isWrapper = false) ∧
      PlainForm s.store t.store v w ∧
      (plain w).execute t = (.ok w', u) ∧ t.Later u ∧ PlainForm t.store u.store w w' ∧
      (w' = w ∨ u.store.equal w' w = .ok true) := by
  obtain ⟨w, t, hrun⟩ := plain_ok hclosed hv hends
  obtain ⟨ht, htclosed, hform⟩ := plainForm_of_plain hclosed hv hrun
  have hw := hform.knows ht hv
  obtain ⟨w', u, hagain⟩ := plain_ok htclosed hw hform.self.nestingEnds
  obtain ⟨hu, -, hform'⟩ := plainForm_of_plain htclosed hw hagain
  refine ⟨w, t, w', u, hrun, ht, (plain_unwraps hrun).2, hform, hagain, hu, hform', ?_⟩
  -- both are plain forms of the value, as of the end
  have hsu := ht.trans hu
  have hnests := hends.nestsWithin.mono (Nat.add_le_add_right hsu.size_le 2)
  exact PlainForm.same_or_equalAt hclosed hkeyed hsu.grows.keepsMappings u.store.depth hnests
    (hform.trans hform') (hform.later hclosed ht hu hv)

/-- A collection of a tuple and an object.  In the tuple there is a read-only mapping, and in that
another collection. -/
def wrapped : State where
  store := { cells := #[
    .policy {},
    .registry {},
    .generator ⟨0⟩,
    .dict [],
    .list [.str "x"],
    .collection
      { list := ⟨4⟩, validators := ⟨3⟩, policy := ⟨0⟩, registry := ⟨1⟩, generator := ⟨2⟩ },
    .frozen [(.str "letters", .ref ⟨5⟩)],
    .tuple [.int 1, .ref ⟨6⟩],
    .object [],
    .list [.ref ⟨7⟩, .ref ⟨8⟩],
    .collection
      { list := ⟨9⟩, validators := ⟨3⟩, policy := ⟨0⟩, registry := ⟨1⟩, generator := ⟨2⟩ }] }

/-- A list and the object are in the places of the tuple and the object, and once more the same
gives an equal list. -/
theorem plain_wrapped :
    wrapped.store.Closed ∧ wrapped.store.Keyed ∧ wrapped.store.Knows (.ref ⟨10⟩) ∧
    wrapped.store.NestingEnds (.ref ⟨10⟩) ∧
    ∃ t u, (plain (.ref ⟨10⟩)).execute wrapped = (.ok (.ref ⟨14⟩), t) ∧
      t.store.cell? ⟨14⟩ = some (.list [.ref ⟨13⟩, .ref ⟨8⟩]) ∧
      PlainForm wrapped.store t.store (.ref ⟨10⟩) (.ref ⟨14⟩) ∧
      (plain (.ref ⟨14⟩)).execute t = (.ok (.ref ⟨18⟩), u) ∧
      u.store.equal (.ref ⟨18⟩) (.ref ⟨14⟩) = .ok true := by
  have hclosed : wrapped.store.Closed := by decide
  have hkeyed : wrapped.store.Keyed := by decide
  have hknows : wrapped.store.Knows (.ref ⟨10⟩) := by decide
  have hfirst : (plain (.ref ⟨10⟩)).execute wrapped =
      (.ok (.ref ⟨14⟩), ((plain (.ref ⟨10⟩)).execute wrapped).2) := rfl
  have hends : wrapped.store.NestingEnds (.ref ⟨10⟩) :=
    (plainForm_of_plain hclosed hknows hfirst).2.2.nestingEnds
  obtain ⟨w, t, w', u, hrun, -, -, hform, hagain, -, -, hequal⟩ :=
    plain_twice hclosed hkeyed hknows hends
  cases hfirst.symm.trans hrun
  have hsecond : (plain (.ref ⟨14⟩)).execute ((plain (.ref ⟨10⟩)).execute wrapped).2 =
      (.ok (.ref ⟨18⟩), u) := by
    cases hagain
    rfl
  cases hsecond.symm.trans hagain
  exact ⟨hclosed, hkeyed, hknows, hends, _, u, hrun, rfl, hform, hagain, hequal.resolve_left nofun⟩

end Action

end Recordset
