import Recordset.Proofs.Equality
import Recordset.Proofs.Query.Testing
import Recordset.Proofs.Reaching
set_option autoImplicit false

/-!
# Terms on plain data

Plain data is made of simple values, containers, mappings and objects, without cycles.  What a term
answers for it depends on nothing else: in two stores that have an item and an operand in common
(`Store.Common`), the same is found at a path, values compare in the same way, and no cell is made
on the way.

`Expression.test_common` is the main statement.
-/

namespace Recordset

/-- A cell of plain data. -/
def Cell.isData : Cell → Bool
  | .list _ | .tuple _ | .set _ | .dict _ | .frozen _ | .object _ => true
  | _ => false

/-- A cell of plain data stays as it is while nothing that holds items or fields changes. -/
theorem Cell.Stays.eq_of_isData {c d : Cell} (h : c.Stays d) (hdata : c.isData = true) : d = c := by
  cases h with
  | same => rfl
  | _ => cases hdata

namespace Store

/-- Plain data that two stores have in common. -/
inductive Common (s t : Store) : Value → Prop where
  | simple {v : Value} (h : v.isSimple = true) : Common s t v
  | cell {a : Address} {c : Cell} (hs : s.cell? a = some c) (ht : t.cell? a = some c)
    (hdata : c.isData = true) (hparts : ∀ v ∈ c.parts, Common s t v) : Common s t (.ref a)

/-- Plain data of a store. -/
def IsData (s : Store) (v : Value) : Prop := s.Common s v

variable {s t : Store} {a b v key : Value} {c d : Cell} {xs ys : List Value} {es : Entries}

/-! ## Cells -/

/-- Common data has the same cell in both stores, or none. -/
theorem Common.view (h : Common s t v) : s.view v = t.view v := by
  cases h with
  | simple hsimple =>
    cases v with
    | ref a => cases hsimple
    | _ => rfl
  | cell hs ht => exact hs.trans ht.symm

theorem Common.data (h : Common s t v) (hc : s.view v = some c) :
    c.isData = true ∧ ∀ w ∈ c.parts, Common s t w := by
  cases h with
  | simple hsimple =>
    cases v with
    | ref a => cases hsimple
    | _ => cases hc
  | cell hs _ hdata hparts =>
    cases hs.symm.trans hc
    exact ⟨hdata, hparts⟩

theorem view_of_isSimple (h : v.isSimple = true) (s : Store) : s.view v = none := by
  cases v with
  | ref a => cases h
  | _ => rfl

/-- What a comparison walks into is among the parts of a cell of plain data. -/
theorem mem_parts_of_mem_inner {items : Collection → List Value} (hdata : c.isData = true)
    (hv : v ∈ c.inner items) : v ∈ c.parts := by
  cases c with
  | list | tuple | set | dict | frozen => exact hv
  | object => cases hv
  | _ => cases hdata

theorem Common.inner (h : Common s t v) (hc : s.view v = some c) {w : Value}
    (hw : w ∈ c.inner s.items) : Common s t w := by
  obtain ⟨hdata, hparts⟩ := h.data hc
  exact hparts w (mem_parts_of_mem_inner hdata hw)

/-- The nesting of plain data ends. -/
theorem Common.ends (h : Common s t v) : s.Ends v := by
  induction h with
  | simple hsimple => exact ends_of_no_view (view_of_isSimple hsimple s)
  | cell hs _ hdata _ ih =>
    refine .intro _ fun w hw => ?_
    obtain ⟨c, hc, hw⟩ := hw
    cases hs.symm.trans hc
    exact ih w (mem_parts_of_mem_inner hdata hw)

/-- Plain data is common to two states that have the cells which it reaches. -/
theorem IsData.common {s t u : State} (h : s.store.IsData v)
    (hcells : ∀ b c, s.Reaches v (.ref b) → s.store.cell? b = some c → c.isData = true →
      u.store.cell? b = some c ∧ t.store.cell? b = some c) : u.store.Common t.store v := by
  unfold IsData at h
  induction h with
  | simple hsimple => exact .simple hsimple
  | @cell a c hs _ hdata _ ih =>
    have hholds : ∀ x ∈ c.parts, x ∈ c.holds s.variables := by
      intro x hx
      cases c with
      | list | tuple | set | dict | frozen | object => exact hx
      | _ => cases hdata
    obtain ⟨hu, ht⟩ := hcells a c (.refl s _) hs hdata
    refine .cell hu ht hdata fun x hx => ih x hx fun b d hreach => hcells b d ?_
    exact Relation.ReflTransGen.head (.part hs (hholds x hx)) hreach

/-! ## Comparisons -/

/-- Common data is equal in the one store exactly when it is in the other, whatever the bounds, if
one of the two values is nested within both. -/
theorem Common.equalAt_eq :
    ∀ {bound : Nat} {a b : Value}, Common s t a → Common s t b →
      NestsWithin s.WalksInto bound a ∨ NestsWithin s.WalksInto bound b →
      ∀ {fuel more : Nat}, bound ≤ fuel → bound ≤ more →
        s.equalAt fuel a b = t.equalAt more a b := by
  intro bound
  induction bound with
  | zero => rintro a b _ _ (h | h) <;> exact h.elim
  | succ bound ih =>
    intro a b ha hb h fuel more hfuel hmore
    obtain ⟨fuel, rfl⟩ := Nat.exists_eq_add_of_le' (Nat.le_trans (Nat.succ_pos bound) hfuel)
    obtain ⟨more, rfl⟩ := Nat.exists_eq_add_of_le' (Nat.le_trans (Nat.succ_pos bound) hmore)
    have hfuel : bound ≤ fuel := Nat.le_of_succ_le_succ hfuel
    have hmore : bound ≤ more := Nat.le_of_succ_le_succ hmore
    cases hc : s.view a with
    | none => exact equalAt_of_no_view ha.view hb.view (.inl (ha.view ▸ hc)) fuel more
    | some c =>
      cases hd : s.view b with
      | none => exact equalAt_of_no_view ha.view hb.view (.inr (hb.view ▸ hd)) fuel more
      | some d =>
        rw [equalAt_of_view hc hd, equalAt_of_view (ha.view ▸ hc) (hb.view ▸ hd)]
        refine (cellsEqual_congr fun x hx y hy => ?_).trans (cellsEqual_items ?_ ?_)
        · have hends : NestsWithin s.WalksInto bound x ∨ NestsWithin s.WalksInto bound y :=
            h.imp (fun h => h x ⟨c, hc, hx⟩) fun h => h y ⟨d, hd, hy⟩
          exact ⟨ih (ha.inner hc hx) (hb.inner hd hy) hends hfuel hmore,
            ih (hb.inner hd hy) (ha.inner hc hx) hends.symm hfuel hmore⟩
        · rintro e rfl
          cases (ha.data hc).1
        · rintro e rfl
          cases (hb.data hd).1

theorem compareLists_congr {eq eq' order order' : Value → Value → Except Error Bool}
    {op : Comparison} (heq : ∀ x ∈ xs, ∀ y ∈ ys, eq x y = eq' x y)
    (horder : ∀ x ∈ xs, ∀ y ∈ ys, order x y = order' x y) :
    compareLists eq order op xs ys = compareLists eq' order' op xs ys := by
  induction xs generalizing ys with
  | nil => rfl
  | cons x xs ih =>
    cases ys with
    | nil => rfl
    | cons y ys =>
      have hx : x ∈ x :: xs := List.mem_cons_self
      have hy : y ∈ y :: ys := List.mem_cons_self
      have hrest := ih
        (fun v hv w hw => heq v (List.mem_cons_of_mem x hv) w (List.mem_cons_of_mem y hw))
        fun v hv w hw => horder v (List.mem_cons_of_mem x hv) w (List.mem_cons_of_mem y hw)
      rw [compareLists, compareLists, sameOr_congr (heq x hx y hy), hrest, horder x hx y hy]

section

variable (hsize : s.size ≤ t.size)
include hsize

theorem Common.equal (ha : Common s t a) (hb : Common s t b) : s.equal a b = t.equal a b :=
  equalAt_eq ha hb (.inl ha.ends.nestsWithin) (Nat.le_refl _) (Nat.add_le_add_right hsize 2)

theorem Common.sameKey (ha : Common s t a) (hb : Common s t b) : s.sameKey a b = t.sameKey a b := by
  unfold Store.sameKey matchesElement
  rw [sameOr_congr (ha.equal hsize hb)]

theorem Common.within (hxs : ∀ x ∈ xs, Common s t x) (hys : ∀ y ∈ ys, Common s t y) :
    s.within xs ys = t.within xs ys := by
  unfold Store.within
  rw [Bool.eq_iff_iff]
  simp only [List.all_eq_true, List.any_eq_true]
  refine forall₂_congr fun x hx => exists_congr fun y => and_congr_right fun hy => ?_
  rw [(hxs x hx).sameKey hsize (hys y hy)]

theorem Common.compareSets (hxs : ∀ x ∈ xs, Common s t x) (hys : ∀ y ∈ ys, Common s t y)
    (op : Comparison) : s.compareSets op xs ys = t.compareSets op xs ys := by
  unfold Store.compareSets
  rw [within hsize hxs hys, within hsize hys hxs]

omit hsize in
theorem Common.comparedKind (h : Common s t v) : s.comparedKind v = t.comparedKind v := by
  cases h with
  | simple hsimple =>
    cases v with
    | ref a => cases hsimple
    | _ => rfl
  | cell hs ht _ _ =>
    unfold Store.comparedKind
    simp only [kind, hs, ht]

/-- Common data has the same order in both stores. -/
theorem Common.compareAt_eq (op : Comparison) :
    ∀ {bound : Nat} {a b : Value}, Common s t a → Common s t b →
      NestsWithin s.WalksInto bound a → ∀ {fuel more : Nat}, bound ≤ fuel → bound ≤ more →
        s.compareAt fuel op a b = t.compareAt more op a b := by
  intro bound
  induction bound with
  | zero => intro a b _ _ h; exact h.elim
  | succ bound ih =>
    intro a b ha hb h fuel more hfuel hmore
    obtain ⟨fuel, rfl⟩ := Nat.exists_eq_add_of_le' (Nat.le_trans (Nat.succ_pos bound) hfuel)
    obtain ⟨more, rfl⟩ := Nat.exists_eq_add_of_le' (Nat.le_trans (Nat.succ_pos bound) hmore)
    have hfuel : bound ≤ fuel := Nat.le_of_succ_le_succ hfuel
    have hmore : bound ≤ more := Nat.le_of_succ_le_succ hmore
    have hlists : ∀ {c d : Cell} {xs ys : List Value}, s.view a = some c → s.view b = some d →
        c.inner s.items = xs → d.inner s.items = ys →
        compareLists (s.equalAt fuel) (s.compareAt fuel op) op xs ys =
          compareLists (t.equalAt more) (t.compareAt more op) op xs ys := by
      rintro c d _ _ hc hd rfl rfl
      refine compareLists_congr (fun x hx y hy => ?_) fun x hx y hy => ?_
      · exact equalAt_eq (ha.inner hc hx) (hb.inner hd hy) (.inl (h x ⟨c, hc, hx⟩)) hfuel hmore
      · exact ih (ha.inner hc hx) (hb.inner hd hy) (h x ⟨c, hc, hx⟩) hfuel hmore
    unfold Store.compareAt
    rw [← ha.view, ← hb.view]
    split
    · rfl
    · split
      · rfl
      · rfl
      · split
        · rfl
        · rfl
        · exact hlists ‹_› ‹_› rfl rfl
        · exact hlists ‹_› ‹_› rfl rfl
        · rename_i hxs hys
          exact congrArg pure (compareSets hsize (ha.data hxs).2 (hb.data hys).2 op)
        · rfl
        · rw [hb.comparedKind]
        · rw [ha.comparedKind]
        · rw [ha.comparedKind, hb.comparedKind]

theorem Common.compare (ha : Common s t a) (hb : Common s t b) (op : Comparison) :
    s.compare op a b = t.compare op a b :=
  compareAt_eq hsize op ha hb ha.ends.nestsWithin (Nat.le_refl _) (Nat.add_le_add_right hsize 2)

end

/-! ## Keys and elements -/

theorem isKey_of_isSimple (h : v.isSimple = true) (s : Store) : s.isKey v = true := by
  unfold isKey depth isKeyAt isKeyKind
  rw [view_of_isSimple h]

theorem Common.find? (hsize : s.size ≤ t.size)
    (hes : ∀ x ∈ es.flatMap fun e => [e.1, e.2], Common s t x) (hkey : Common s t key) :
    Entries.find? s es key = Entries.find? t es key ∧
      ∀ w, Entries.find? t es key = some w → Common s t w := by
  constructor
  · refine findBy_congr fun e he => Common.equal hsize (hes e.1 ?_) hkey
    exact List.mem_flatMap.mpr ⟨e, he, List.mem_cons_self⟩
  · intro w hw
    obtain ⟨e, he, rfl⟩ := mem_of_findBy hw
    exact hes _ (List.mem_flatMap.mpr ⟨e, he, List.mem_cons_of_mem _ List.mem_cons_self⟩)

/-- The elements of common data are the same, and common data. -/
theorem Common.elements (h : Common s t v) :
    s.elements v = t.elements v ∧ ∀ zs, t.elements v = .ok zs → ∀ x ∈ zs, Common s t x := by
  cases h with
  | simple hsimple =>
    cases v with
    | str text =>
      refine ⟨rfl, fun zs hzs x hx => ?_⟩
      cases hzs
      obtain ⟨_, -, rfl⟩ := List.mem_map.mp hx
      exact .simple rfl
    | bytes bs =>
      refine ⟨rfl, fun zs hzs x hx => ?_⟩
      cases hzs
      obtain ⟨_, -, rfl⟩ := List.mem_map.mp hx
      exact .simple rfl
    | builtin | ref => cases hsimple
    | _ => exact ⟨rfl, nofun⟩
  | @cell a c hs ht hdata hparts =>
    have hview : s.view (.ref a) = some c ∧ t.view (.ref a) = some c := ⟨hs, ht⟩
    unfold Store.elements
    dsimp only
    rw [hview.1, hview.2]
    cases c with
    | list | tuple | set =>
      refine ⟨rfl, fun zs hzs x hx => ?_⟩
      cases hzs
      exact hparts x hx
    | dict | frozen =>
      refine ⟨rfl, fun zs hzs x hx => ?_⟩
      cases hzs
      obtain ⟨e, he, rfl⟩ := List.mem_map.mp hx
      exact hparts _ (List.mem_flatMap.mpr ⟨e, he, List.mem_cons_self⟩)
    | object => exact ⟨rfl, nofun⟩
    | _ => cases hdata

/-- What may be missing is common data. -/
theorem Common.getD {o : Option Value} (h : ∀ w, o = some w → Common s t w) :
    Common s t (o.getD .missing) := by
  cases o with
  | none => exact .simple rfl
  | some w => exact h w rfl

/-- What common data has under a simple key. -/
theorem Common.entry (hsize : s.size ≤ t.size) (h : Common s t v) (hes : s.entries? v = some es)
    (hkey : key.isSimple = true) :
    Entries.find? s es key = Entries.find? t es key ∧
      Common s t ((Entries.find? t es key).getD .missing) := by
  have hparts : ∀ x ∈ es.flatMap fun e => [e.1, e.2], Common s t x := by
    rcases view_of_entries? hes with hview | hview <;> exact (h.data hview).2
  obtain ⟨hfind, hfound⟩ := Common.find? hsize hparts (.simple hkey)
  exact ⟨hfind, .getD hfound⟩

/-- What common data has at a position. -/
theorem Common.place (h : Common s t v) (hxs : s.sequence? v = some xs) (i : Int) :
    Common s t (((Slice.place? xs.length i).bind (xs[·]?)).getD .missing) := by
  have hparts : ∀ x ∈ xs, Common s t x := by
    unfold sequence? at hxs
    split at hxs
    case h_3 => cases hxs
    all_goals
      rename_i hview
      cases hxs
      exact (h.data hview).2
  refine .getD fun x hx => ?_
  obtain ⟨n, -, hn⟩ := Option.bind_eq_some_iff.mp hx
  exact hparts x (List.mem_of_getElem? hn)

end Store

/-! ## Paths -/

section

variable {s t : State} {v w item path operand : Value}

/-- An action gives the same common data on two states, or fails on both, and changes neither. -/
def Action.Sees (s t : State) (x : Action Value) : Prop :=
  ∃ r, x.execute s = (r, s) ∧ x.execute t = (r, t) ∧
    ∀ v, r = .ok v → s.store.Common t.store v

variable (hsize : s.store.size ≤ t.store.size) (hmarks : t.store.marks = s.store.marks)
  (hset : ∀ m ∈ s.store.marks, s.store.Common t.store m.2.2)

namespace Action

theorem sees_pure (h : s.store.Common t.store v) : Sees s t (pure v) :=
  ⟨.ok v, rfl, rfl, by rintro _ ⟨⟩; exact h⟩

theorem sees_error {x : Action Value} {e : Error} (hs : x.execute s = (.error e, s))
    (ht : x.execute t = (.error e, t)) : Sees s t x :=
  ⟨.error e, hs, ht, by rintro _ ⟨⟩⟩

theorem sees_bind {x : Action Value} {f : Value → Action Value} (hx : Sees s t x)
    (hf : ∀ v, s.store.Common t.store v → Sees s t (f v)) : Sees s t (x >>= f) := by
  obtain ⟨r, hs, ht, hr⟩ := hx
  cases r with
  | error e =>
    refine @sees_error s t _ e ?_ ?_
    · rw [execute_bind, hs]
    · rw [execute_bind, ht]
  | ok v =>
    unfold Sees
    rw [execute_bind_of_ok hs, execute_bind_of_ok ht]
    exact hf v (hr v rfl)

/-- The parts of a number are simple. -/
theorem isSimple_numberAttribute {n : Number} {name : String} (hv : v.isSimple = true)
    (h : numberAttribute n v name = some w) : w.isSimple = true := by
  unfold numberAttribute at h
  cases n <;> (dsimp only at h; split_ifs at h) <;> cases h <;> first | rfl | exact hv

/-- The attribute that plain data has by its kind. -/
theorem ownAttribute_common (h : s.store.Common t.store v) (name : String) :
    ∃ o, (ownAttribute v name).execute s = (.ok o, s) ∧
      (ownAttribute v name).execute t = (.ok o, t) ∧
      ∀ w, o = some w → s.store.Common t.store w := by
  cases h with
  | simple hsimple =>
    cases hnumber : v.number? with
    | some n =>
      have hown : ownAttribute v name = pure (numberAttribute n v name) := by
        unfold ownAttribute
        cases v <;> cases hnumber <;> rfl
      rw [hown]
      exact ⟨_, rfl, rfl, fun w hw => .simple (isSimple_numberAttribute hsimple hw)⟩
    | none =>
      have hown : ownAttribute v name = pure none := by
        unfold ownAttribute
        cases v with
        | ref | pattern | builtin | extension | method => cases hsimple
        | bool | int | float | nan => cases hnumber
        | _ => rfl
      rw [hown]
      exact ⟨none, rfl, rfl, nofun⟩
  | @cell a c hs ht hdata hparts =>
    have hown : ∀ u : State, u.store.cell? a = some c →
        (ownAttribute (.ref a) name).execute u =
          (.ok (match c with | .object fs => fs.lookup name | _ => none), u) := by
      intro u hu
      unfold ownAttribute
      dsimp only [Value.number?]
      rw [execute_get_bind, hu]
      cases c <;> first | rfl | cases hdata
    refine ⟨_, hown s hs, hown t ht, fun w hw => ?_⟩
    cases c with
    | object fs =>
      obtain ⟨front, back, rfl, -⟩ := List.lookup_eq_some_iff.mp hw
      exact hparts w (by simp [Cell.parts])
    | _ => cases hw

include hmarks hset in
/-- The attribute of plain data. -/
theorem attribute?_common (h : s.store.Common t.store v) (name : String) :
    ∃ o, (attribute? v name).execute s = (.ok o, s) ∧ (attribute? v name).execute t = (.ok o, t) ∧
      ∀ w, o = some w → s.store.Common t.store w := by
  have hsame : t.store.mark? v name = s.store.mark? v name := by
    unfold Store.mark?
    rw [hmarks]
  unfold attribute?
  rw [execute_get_bind, execute_get_bind, hsame]
  cases hmark : s.store.mark? v name with
  | none => exact ownAttribute_common h name
  | some x =>
    refine ⟨some x, rfl, rfl, ?_⟩
    rintro _ ⟨⟩
    obtain ⟨m, hm, rfl⟩ := Option.map_eq_some_iff.mp hmark
    exact hset m (List.mem_of_find?_eq_some hm)

end Action

namespace Path

open Recordset.Action

include hsize hmarks hset

/-- One segment away from plain data. -/
theorem step_common (h : s.store.Common t.store v) (hw : w.isSimple = true) :
    Sees s t (step v w) := by
  have hmissing : s.store.Common t.store .missing := .simple rfl
  have hentries : t.store.entries? v = s.store.entries? v := by
    unfold Store.entries?
    rw [h.view]
  have hsequence : t.store.sequence? v = s.store.sequence? v := by
    unfold Store.sequence?
    rw [h.view]
  have hunreadable : t.store.unreadable? v = s.store.unreadable? v := by
    unfold Store.unreadable?
    rw [h.view]
  unfold Sees step
  rw [execute_get_bind, execute_get_bind]
  dsimp only
  rw [hentries, hsequence, hunreadable]
  cases hes : s.store.entries? v with
  | some es =>
    obtain ⟨hfind, hfound⟩ := h.entry hsize hes hw
    dsimp only
    rw [if_pos (Store.isKey_of_isSimple hw _), if_pos (Store.isKey_of_isSimple hw _), hfind]
    exact sees_pure hfound
  | none =>
    dsimp only
    cases hxs : s.store.sequence? v with
    | some xs =>
      dsimp only
      rw [execute_bind, execute_bind, execute_ofExcept, execute_ofExcept]
      cases position w with
      | error e => exact sees_error rfl rfl
      | ok place =>
        cases place with
        | none => exact sees_pure hmissing
        | some i => exact sees_pure (h.place hxs i)
    | none =>
      split
      · rename_i hnone
        cases hnone
      · rw [execute_bind, execute_bind, execute_ofExcept, execute_ofExcept]
        cases position w with
        | error e => exact sees_error rfl rfl
        | ok place =>
          cases place with
          | none => exact sees_pure hmissing
          | some i =>
            dsimp only
            split_ifs
            · exact sees_pure hmissing
            · exact sees_error rfl rfl
      split_ifs
      · exact sees_pure hmissing
      · split
        · rename_i name
          obtain ⟨o, hs, ht, ho⟩ := attribute?_common hmarks hset h name
          rw [execute_bind_of_ok hs, execute_bind_of_ok ht]
          exact sees_pure (.getD ho)
        · exact sees_pure hmissing

/-- Simple segments are followed to the same. -/
theorem follow_common : ∀ (segments : List Value) {v : Value},
    (∀ w ∈ segments, w.isSimple = true) → s.store.Common t.store v →
      Sees s t (follow segments v) := by
  intro segments
  induction segments with
  | nil => exact fun _ h => sees_pure h
  | cons segment rest ih =>
    intro v hsegments h
    refine sees_bind (step_common hsize hmarks hset h (hsegments segment List.mem_cons_self)) ?_
    intro next hnext
    have hrest := ih (fun w hw => hsegments w (List.mem_cons_of_mem _ hw)) hnext
    cases next with
    | missing => exact sees_pure (.simple rfl)
    | _ => exact hrest

/-- At a simple path of plain data the same is found. -/
theorem value_common (h : s.store.Common t.store item) (hpath : path.isSimple = true) :
    Sees s t (value item path) := by
  have hsplit : ∃ segments, split path s.store = .ok segments ∧ split path t.store = .ok segments ∧
      ∀ w ∈ segments, w.isSimple = true := by
    cases path with
    | null => exact ⟨[], rfl, rfl, nofun⟩
    | str text =>
      refine ⟨_, rfl, rfl, fun w hw => ?_⟩
      unfold segments at hw
      split at hw
      · cases hw
      · obtain ⟨_, -, rfl⟩ := List.mem_map.mp hw
        rfl
    | ref | pattern | builtin | extension | method => cases hpath
    | _ =>
      refine ⟨_, rfl, rfl, fun w hw => ?_⟩
      rw [List.mem_singleton.mp hw]
      rfl
  obtain ⟨segments, hs, ht, hsegments⟩ := hsplit
  unfold Sees value resolve
  rw [execute_bind, execute_bind, execute_look, execute_look, hs, ht]
  dsimp only
  split
  · exact sees_pure h
  · refine sees_bind (follow_common hsize hmarks hset segments hsegments h) fun found hfound => ?_
    cases found with
    | missing => exact sees_pure (.simple rfl)
    | _ => exact sees_pure hfound

end Path

/-! ## Terms -/

namespace Operator

theorem strictEqual_common (hsize : s.store.size ≤ t.store.size)
    (hv : s.store.Common t.store v) (hw : s.store.Common t.store w) :
    strictEqual s.store v w = strictEqual t.store v w := by
  unfold strictEqual
  rw [hv.equal hsize hw]

/-- An operator answers the same for plain data; finding a pattern looks at no store. -/
theorem test_common (hsize : s.store.size ≤ t.store.size) (op : Operator)
    (hv : s.store.Common t.store v) (hoperand : op = .found ∨ s.store.Common t.store operand) :
    op.test s.store v operand = op.test t.store v operand := by
  rcases hoperand with rfl | hoperand
  · rfl
  · have hordered : ∀ c, ordered s.store c v operand = ordered t.store c v operand := by
      intro c
      unfold ordered
      rw [hv.compare hsize hoperand]
    cases op with
    | equal => exact congrArg Except.ok (strictEqual_common hsize hv hoperand)
    | greater | greaterOrEqual | lower | lowerOrEqual => exact hordered _
    | found => rfl
    | oneOf =>
      unfold test
      obtain ⟨helements, hparts⟩ := hoperand.elements
      dsimp only
      rw [helements]
      cases hxs : t.store.elements operand with
      | error e =>
        -- the failure is taken first: a bare `rfl` would compute the two equalities
        show (if _ then _ else Except.error e) = if _ then _ else Except.error e
        rfl
      | ok xs =>
        have hany : (xs.any fun x => strictEqual s.store v x) =
            xs.any fun x => strictEqual t.store v x := by
          rw [Bool.eq_iff_iff, List.any_eq_true, List.any_eq_true]
          refine exists_congr fun x => and_congr_right fun hx => ?_
          rw [strictEqual_common hsize hv (hparts xs hxs x hx)]
        show (if _ then _ else Except.ok _) = if _ then _ else Except.ok _
        rw [hany]
    | contains =>
      obtain ⟨helements, hparts⟩ := hv.elements
      have hcontainer : isContainer s.store v = isContainer t.store v := by
        unfold isContainer
        rw [hv.view]
      show holds s.store v operand = holds t.store v operand
      unfold holds
      rw [hcontainer, helements]
      split
      · rfl
      · cases hxs : t.store.elements v with
        | error e => dsimp only
        | ok xs =>
          have hany : (xs.any fun x => strictEqual s.store x operand) =
              xs.any fun x => strictEqual t.store x operand := by
            rw [Bool.eq_iff_iff, List.any_eq_true, List.any_eq_true]
            refine exists_congr fun x => and_congr_right fun hx => ?_
            rw [strictEqual_common hsize (hparts xs hxs x hx) hoperand]
          dsimp only
          rw [hany]

end Operator

namespace Expression

/-- An expression of terms whose paths are simple and whose operands have a property, unless they
are patterns to be found. -/
inductive OfTerms (P : Value → Prop) : Expression → Prop where
  | all {parts : List Expression} (h : ∀ e ∈ parts, OfTerms P e) : OfTerms P (.all parts)
  | not {inner : Expression} (h : OfTerms P inner) : OfTerms P (.not inner)
  | always : OfTerms P .always
  | term {path operand : Value} {op : Operator} (hpath : path.isSimple = true)
    (hoperand : op = .found ∨ P operand) : OfTerms P (.term path op operand)

theorem OfTerms.mono {P Q : Value → Prop} {e : Expression} (h : e.OfTerms P)
    (hPQ : ∀ v, P v → Q v) : e.OfTerms Q := by
  induction h with
  | all _ ih => exact .all ih
  | not _ ih => exact .not ih
  | always => exact .always
  | term hpath hoperand => exact .term hpath (hoperand.imp_right (hPQ _))

/-- An expression of terms answers the same for an item of plain data in both states, or fails in
both for the same reason, and changes neither. -/
theorem test_common (hsize : s.store.size ≤ t.store.size) (hmarks : t.store.marks = s.store.marks)
    (hset : ∀ m ∈ s.store.marks, s.store.Common t.store m.2.2) (caller : Caller) {e : Expression}
    (he : e.OfTerms (s.store.Common t.store)) (hitem : s.store.Common t.store item) (index : Int) :
    ∃ r, (e.test caller item index).execute s = (r, s) ∧
      (e.test caller item index).execute t = (r, t) := by
  induction he with
  | all h ih =>
    rename_i parts
    unfold test
    clear h
    induction parts with
    | nil => exact ⟨.ok true, rfl, rfl⟩
    | cons e es ihes =>
      obtain ⟨r, hs, ht⟩ := ih e List.mem_cons_self
      rw [testAll, Action.execute_bind, Action.execute_bind, hs, ht]
      cases r with
      | error err => exact ⟨.error err, rfl, rfl⟩
      | ok holds =>
        cases holds with
        | true => exact ihes fun e he => ih e (List.mem_cons_of_mem _ he)
        | false => exact ⟨.ok false, rfl, rfl⟩
  | not h ih =>
    obtain ⟨r, hs, ht⟩ := ih
    rw [test, Action.execute_bind, Action.execute_bind, hs, ht]
    cases r with
    | error err => exact ⟨.error err, rfl, rfl⟩
    | ok holds => exact ⟨.ok !holds, rfl, rfl⟩
  | always => exact ⟨.ok true, rfl, rfl⟩
  | @term path operand op hpath hoperand =>
    obtain ⟨r, hs, ht, hr⟩ := Path.value_common hsize hmarks hset hitem hpath
    rw [test, Action.execute_bind, Action.execute_bind, hs, ht]
    cases r with
    | error err => exact ⟨.error err, rfl, rfl⟩
    | ok source =>
      dsimp only
      rw [Action.execute_look, Action.execute_look,
        Operator.test_common hsize op (hr source rfl) hoperand]
      cases op.test t.store source operand with
      | error err => exact ⟨.error err, rfl, rfl⟩
      | ok holds => exact ⟨.ok holds, rfl, rfl⟩

end Expression

end

end Recordset
