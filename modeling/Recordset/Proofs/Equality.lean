import Mathlib.Data.List.Find
import Recordset.Proofs.Made
import Recordset.Proofs.Nesting
import Recordset.Value.Equal
set_option autoImplicit false

/-!
# Equality as time goes by

Equality walks into what values hold (`Cell.inner`), within a bound on the nesting that grows with
the store.  Between values that have been made it is the same in every later state, within the same
bound (`State.Later.equalAt`); and where the nesting of one of the two values ends, the bound does
not matter either (`Store.equalAt_eq`).
-/

namespace Recordset

/-- The values that a comparison walks into. -/
def Cell.inner (items : Collection → List Value) : Cell → List Value
  | .list xs | .tuple xs | .set xs => xs
  | .dict es | .frozen es => es.flatMap fun e => [e.1, e.2]
  | .collection c => items c
  | .policy p => [p.perPage, p.separator, .str p.direction.text, p.seed]
  | _ => []

namespace Store

variable {eq eq' : Value → Value → Except Error Bool} {xs ys : List Value}

/-! ## Comparisons that decide -/

/-- A comparison ends with a truth value, which says whether something is the case. -/
def Decides (r : Except Error Bool) (p : Prop) : Prop := ∃ b, r = .ok b ∧ (b = true ↔ p)

theorem Decides.congr {r : Except Error Bool} {p q : Prop} (h : Decides r p) (hpq : p ↔ q) :
    Decides r q := by
  obtain ⟨b, hr, hb⟩ := h
  exact ⟨b, hr, hb.trans hpq⟩

theorem decides_false {p : Prop} (h : ¬ p) : Decides (.ok false) p :=
  ⟨false, rfl, iff_of_false nofun h⟩

variable {v w : Value}

theorem sameOr_of_same (h : v.same w = true) : sameOr eq v w = .ok true := by
  unfold sameOr
  rw [if_pos h]
  rfl

theorem sameOr_of_not_same (h : v.same w = false) : sameOr eq v w = eq v w := by
  unfold sameOr
  rw [h]
  rfl

theorem sameOr_of_eq (h : eq v w = .ok true) : sameOr eq v w = .ok true := by
  cases hsame : v.same w with
  | true => exact sameOr_of_same hsame
  | false => exact (sameOr_of_not_same hsame).trans h

/-- Tuples are equal when they are of one length and hold equal elements. -/
theorem tuplesEqual_iff :
    (do return (← allEqual (sameOr eq) xs ys) && xs.length == ys.length) = Except.ok true ↔
      allEqual (sameOr eq) xs ys = .ok true ∧ xs.length = ys.length := by
  cases allEqual (sameOr eq) xs ys with
  | error e => exact iff_of_false nofun fun h => by cases h.1
  | ok b =>
    have hboth : (b && xs.length == ys.length) = true ↔ b = true ∧ xs.length = ys.length := by
      rw [Bool.and_eq_true, beq_iff_eq]
    exact ⟨fun h => (hboth.mp (Except.ok.inj h)).imp_left (congrArg _), fun h =>
      congrArg Except.ok (hboth.mpr (h.imp_left Except.ok.inj))⟩

/-! ## Comparisons that agree on what is held -/

theorem sameOr_congr {x y : Value} (h : eq x y = eq' x y) : sameOr eq x y = sameOr eq' x y := by
  unfold sameOr
  rw [h]

theorem allEqual_congr (h : ∀ x ∈ xs, ∀ y ∈ ys, eq x y = eq' x y) :
    allEqual eq xs ys = allEqual eq' xs ys := by
  induction xs generalizing ys with
  | nil => rfl
  | cons x xs ih =>
    cases ys with
    | nil => rfl
    | cons y ys =>
      have hrest := ih fun v hv w hw =>
        h v (List.mem_cons_of_mem x hv) w (List.mem_cons_of_mem y hw)
      rw [allEqual, allEqual, h x List.mem_cons_self y List.mem_cons_self, hrest]

theorem allEqual_mono (h : ∀ x ∈ xs, ∀ y ∈ ys, eq x y = .ok true → eq' x y = .ok true)
    (hall : allEqual eq xs ys = .ok true) : allEqual eq' xs ys = .ok true := by
  induction xs generalizing ys with
  | nil => rfl
  | cons x xs ih =>
    cases ys with
    | nil => rfl
    | cons y ys =>
      rw [allEqual] at hall ⊢
      cases hxy : eq x y with
      | error e =>
        rw [hxy] at hall
        cases hall
      | ok b =>
        rw [hxy] at hall
        cases b with
        | false => cases hall
        | true =>
          rw [h x List.mem_cons_self y List.mem_cons_self hxy]
          exact ih (fun v hv w hw =>
            h v (List.mem_cons_of_mem x hv) w (List.mem_cons_of_mem y hw)) hall

theorem allEqual_sameOr_congr (h : ∀ x ∈ xs, ∀ y ∈ ys, eq x y = eq' x y) :
    allEqual (sameOr eq) xs ys = allEqual (sameOr eq') xs ys :=
  allEqual_congr fun x hx y hy => sameOr_congr (h x hx y hy)

theorem itemsEqual_congr (h : ∀ x ∈ xs, ∀ y ∈ ys, eq x y = eq' x y) :
    itemsEqual eq xs ys = itemsEqual eq' xs ys := by
  unfold itemsEqual
  rw [allEqual_sameOr_congr h]

theorem setsEqual_congr (h : ∀ x ∈ xs, ∀ y ∈ ys, eq x y = eq' x y) :
    (xs.all fun x => ys.any fun y => succeeds (sameOr eq x y)) =
      xs.all fun x => ys.any fun y => succeeds (sameOr eq' x y) := by
  rw [Bool.eq_iff_iff]
  simp only [List.all_eq_true, List.any_eq_true]
  refine forall₂_congr fun x hx => exists_congr fun y => and_congr_right fun hy => ?_
  rw [sameOr_congr (h x hx y hy)]

theorem findBy_congr {key : Value} {es : Entries} (h : ∀ e ∈ es, eq e.1 key = eq' e.1 key) :
    findBy eq es key = findBy eq' es key := by
  unfold findBy
  rw [List.find?_congr fun e he => by rw [sameOr_congr (h e he)]]

theorem mem_of_findBy {key v : Value} {es : Entries} (h : findBy eq es key = some v) :
    ∃ e ∈ es, e.2 = v := by
  unfold findBy at h
  obtain ⟨e, he, rfl⟩ := Option.map_eq_some_iff.mp h
  exact ⟨e, List.mem_of_find?_eq_some he, rfl⟩

theorem entriesWithin_congr {es other : Entries}
    (h : ∀ x ∈ es.flatMap fun e => [e.1, e.2], ∀ y ∈ other.flatMap fun e => [e.1, e.2],
      eq y x = eq' y x) :
    entriesWithin eq other es = entriesWithin eq' other es := by
  induction es with
  | nil => rfl
  | cons e es ih =>
    obtain ⟨key, v⟩ := e
    have hrest := ih fun x hx => h x (List.mem_append_right [key, v] hx)
    have hkey : findBy eq other key = findBy eq' other key := findBy_congr fun d hd =>
      h key List.mem_cons_self d.1 (List.mem_flatMap.mpr ⟨d, hd, List.mem_cons_self⟩)
    rw [entriesWithin, entriesWithin, hkey, hrest]
    cases hfound : findBy eq' other key with
    | none => rfl
    | some w =>
      obtain ⟨d, hd, rfl⟩ := mem_of_findBy hfound
      have hvalue := h v (List.mem_cons_of_mem _ List.mem_cons_self) d.2
        (List.mem_flatMap.mpr ⟨d, hd, List.mem_cons_of_mem _ List.mem_cons_self⟩)
      dsimp only
      rw [sameOr_congr hvalue]

theorem entriesEqual_congr {es other : Entries}
    (h : ∀ x ∈ es.flatMap fun e => [e.1, e.2], ∀ y ∈ other.flatMap fun e => [e.1, e.2],
      eq y x = eq' y x) :
    entriesEqual eq es other = entriesEqual eq' es other := by
  unfold entriesEqual
  rw [entriesWithin_congr h]

/-- Two cells compare in the same way by two comparisons that agree on what the one and the other
holds. -/
theorem cellsEqual_congr {items : Collection → List Value} {same : Bool} {c d : Cell}
    (h : ∀ x ∈ c.inner items, ∀ y ∈ d.inner items, eq x y = eq' x y ∧ eq y x = eq' y x) :
    cellsEqual items eq same c d = cellsEqual items eq' same c d := by
  have hthere : ∀ x ∈ c.inner items, ∀ y ∈ d.inner items, eq x y = eq' x y :=
    fun x hx y hy => (h x hx y hy).1
  have hback : ∀ x ∈ c.inner items, ∀ y ∈ d.inner items, eq y x = eq' y x :=
    fun x hx y hy => (h x hx y hy).2
  unfold cellsEqual
  split
  · rfl
  · rfl
  · exact itemsEqual_congr hthere
  · exact congrArg (· >>= _) (allEqual_sameOr_congr hthere)
  · exact congrArg (fun b => pure (_ && b)) (setsEqual_congr hthere)
  · exact entriesEqual_congr hback
  · exact entriesEqual_congr hback
  · exact entriesEqual_congr hback
  · exact entriesEqual_congr hback
  · exact itemsEqual_congr hthere
  · exact itemsEqual_congr hthere
  · exact itemsEqual_congr hthere
  · exact itemsEqual_congr fun x hx y hy => hback y hy x hx
  · exact itemsEqual_congr fun x hx y hy => hback y hy x hx
  · exact allEqual_sameOr_congr hthere
  · rfl

/-- Two cells compare in the same way where collections have the same items. -/
theorem cellsEqual_items {items items' : Collection → List Value} {same : Bool} {c d : Cell}
    (hc : ∀ e, c = .collection e → items e = items' e)
    (hd : ∀ e, d = .collection e → items e = items' e) :
    cellsEqual items eq same c d = cellsEqual items' eq same c d := by
  cases c with
  | collection e =>
    cases d with
    | collection f => simp only [cellsEqual, hc e rfl, hd f rfl]
    | _ => simp only [cellsEqual, hc e rfl]
  | _ =>
    cases d with
    | collection f => simp only [cellsEqual, hd f rfl]
    | _ => rfl

/-! ## The bound on the nesting -/

/-- A comparison walks from a value into another one. -/
def WalksInto (s : Store) (outer inner : Value) : Prop :=
  ∃ c, s.view outer = some c ∧ inner ∈ c.inner s.items

/-- The nesting of a value ends: it does not hold itself. -/
def Ends (s : Store) (v : Value) : Prop := Acc (fun inner outer => s.WalksInto outer inner) v

/-- Nothing is walked into where there is no cell. -/
theorem ends_of_no_view {s : Store} {v : Value} (h : s.view v = none) : s.Ends v := by
  refine .intro v fun w hw => ?_
  obtain ⟨c, hc, -⟩ := hw
  rw [h] at hc
  cases hc

theorem Ends.nestsWithin {s : Store} {v : Value} (h : s.Ends v) :
    NestsWithin s.WalksInto s.depth v := by
  refine NestsWithin.of_acc ?_ h
  rintro outer inner ⟨c, hc, -⟩
  cases outer with
  | ref a => exact ⟨a, rfl, (Array.getElem?_eq_some_iff.mp hc).1⟩
  | _ => cases hc

/-- Two values that are no numbers and have cells are compared by their cells. -/
theorem equalAt_of_view {s : Store} {a b : Value} {c d : Cell} (hc : s.view a = some c)
    (hd : s.view b = some d) (fuel : Nat) :
    s.equalAt (fuel + 1) a b = cellsEqual s.items (s.equalAt fuel) (a.same b) c d := by
  cases a with
  | ref a =>
    cases b with
    | ref b =>
      unfold equalAt
      simp only [Value.number?, hc, hd]
      cases c <;> cases d <;> rfl
    | _ => cases hd
  | _ => cases hc

/-- Where one of two values has no cell, nothing is walked into. -/
theorem equalAt_of_no_view {s t : Store} {a b : Value} (ha : s.view a = t.view a)
    (hb : s.view b = t.view b) (hnone : t.view a = none ∨ t.view b = none) (fuel more : Nat) :
    s.equalAt (fuel + 1) a b = t.equalAt (more + 1) a b := by
  unfold equalAt
  rw [ha, hb]
  split
  · rfl
  · rcases hnone with hnone | hnone
    · rw [hnone]
      rcases t.view b with - | d
      · rfl
      · cases d <;> rfl
    · rw [hnone]
      rcases t.view a with - | c
      · rfl
      · cases c <;> rfl

/-- The bound within which two values are compared does not matter when the nesting of one of them
ends. -/
theorem equalAt_eq {s : Store} :
    ∀ {bound : Nat} {a b : Value},
      NestsWithin s.WalksInto bound a ∨ NestsWithin s.WalksInto bound b →
      ∀ {fuel : Nat}, bound ≤ fuel → s.equalAt fuel a b = s.equalAt bound a b := by
  intro bound
  induction bound with
  | zero => rintro a b (h | h) <;> exact h.elim
  | succ bound ih =>
    intro a b h fuel hle
    obtain ⟨fuel, rfl⟩ := Nat.exists_eq_add_of_le' (Nat.le_trans (Nat.succ_pos bound) hle)
    have hrest : bound ≤ fuel := Nat.le_of_succ_le_succ hle
    cases hc : s.view a with
    | none => exact equalAt_of_no_view rfl rfl (.inl hc) fuel bound
    | some c =>
      cases hd : s.view b with
      | none => exact equalAt_of_no_view rfl rfl (.inr hd) fuel bound
      | some d =>
        rw [equalAt_of_view hc hd, equalAt_of_view hc hd]
        refine cellsEqual_congr fun x hx y hy => ?_
        have hends : NestsWithin s.WalksInto bound x ∨ NestsWithin s.WalksInto bound y :=
          h.imp (fun h => h x ⟨c, hc, hx⟩) fun h => h y ⟨d, hd, hy⟩
        exact ⟨ih hends hrest, ih hends.symm hrest⟩

end Store

namespace State

variable {s t : State}

/-- What a comparison walks into has been made. -/
theorem Whole.made_of_inner (h : s.Whole) {v w : Value} {c : Cell} (hc : s.store.view v = some c)
    (hw : w ∈ c.inner s.store.items) : s.Made w := by
  cases c with
  | collection d => exact h.made_of_items hw
  | policy p =>
    simp only [Cell.inner, List.mem_cons, List.not_mem_nil, or_false] at hw
    have hparts : ∀ x ∈ [p.perPage, p.separator, p.seed], s.Made x := fun x hx =>
      h.made_of_view hc hx
    rcases hw with rfl | rfl | rfl | rfl
    · exact hparts _ (by simp)
    · exact hparts _ (by simp)
    · trivial
    · exact hparts _ (by simp)
  | list | tuple | set | dict | frozen => exact h.made_of_view hc hw
  | _ => cases hw

/-- Values that had been made compare as they did, within the same bound. -/
theorem Later.equalAt (h : s.Later t) (hwhole : s.Whole) :
    ∀ (fuel : Nat) {a b : Value}, s.Made a → s.Made b →
      t.store.equalAt fuel a b = s.store.equalAt fuel a b := by
  intro fuel
  induction fuel with
  | zero => exact fun _ _ => rfl
  | succ fuel ih =>
    intro a b ha hb
    cases hc : s.store.view a with
    | none => exact Store.equalAt_of_no_view (h.view ha) (h.view hb) (.inl hc) fuel fuel
    | some c =>
      cases hd : s.store.view b with
      | none => exact Store.equalAt_of_no_view (h.view ha) (h.view hb) (.inr hd) fuel fuel
      | some d =>
        rw [Store.equalAt_of_view ((h.view ha).trans hc) ((h.view hb).trans hd),
          Store.equalAt_of_view hc hd]
        refine (Store.cellsEqual_items ?_ ?_).trans (Store.cellsEqual_congr fun x hx y hy => ?_)
        · rintro e rfl
          exact h.items hwhole hc
        · rintro e rfl
          exact h.items hwhole hd
        · have hx := hwhole.made_of_inner hc hx
          have hy := hwhole.made_of_inner hd hy
          exact ⟨ih hx hy, ih hy hx⟩

end State

end Recordset
