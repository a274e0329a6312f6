import Recordset.Proofs.Equality
import Recordset.Proofs.Path.Alike
set_option autoImplicit false

/-!
# Equality at a path

Whether the value at a path equals an operand does not depend on the state in which that is asked,
as long as the state comes later than the item and the operand have been made: within the same
bound on the nesting, or for an operand whose nesting ends.

`State.Alike.strictEqual` is the main statement.
-/

namespace Recordset

namespace Store

/-- Where one of two values has no cell and the first is no number, they are compared as they
are. -/
theorem equalAt_eq_simpleEqual {s : Store} {a b : Value} (hnumber : a.number? = none)
    (hnone : s.view a = none ∨ s.view b = none) (fuel : Nat) :
    s.equalAt (fuel + 1) a b =
      match s.view a, s.view b with
      | some .hostile, _ => .error (.fault .value)
      | _, some .hostile => .error (.fault .value)
      | _, _ => .ok (simpleEqual a b) := by
  unfold equalAt
  rw [hnumber]
  rcases hnone with hnone | hnone
  · rw [hnone]
    rcases s.view b with - | d
    · rfl
    · cases d <;> rfl
  · rw [hnone]
    rcases s.view a with - | c
    · rfl
    · cases c <;> rfl

/-- Cells are compared in the same way within all bounds that are large enough for a value of which
the nesting ends. -/
theorem cellsEqual_eq {s : Store} {b : Value} {c d : Cell} (hends : s.Ends b)
    (hd : s.view b = some d) {fuel more : Nat} (hfuel : s.size < fuel) (hmore : s.size < more)
    (same : Bool) :
    cellsEqual s.items (s.equalAt fuel) same c d =
      cellsEqual s.items (s.equalAt more) same c d := by
  refine cellsEqual_congr fun x hx y hy => ?_
  have hy : NestsWithin s.WalksInto (s.size + 1) y := hends.nestsWithin y ⟨d, hd, hy⟩
  exact ⟨(equalAt_eq (.inr hy) hfuel).trans (equalAt_eq (.inr hy) hmore).symm,
    (equalAt_eq (.inl hy) hfuel).trans (equalAt_eq (.inl hy) hmore).symm⟩

end Store

namespace State

variable {s t t₁ t₂ : State} {v w operand : Value}

/-- A comparison of a cell that has been made since with a value that had been made is one of what
the two hold, which had been made. -/
theorem Later.equalAt_fresh (h : s.Later t) (hwhole : s.Whole) {a : Address} {c : Cell}
    (ha : s.store.size ≤ a.index) (hc : t.store.cell? a = some c) (hplain : c.isPlain = true)
    (hmade : ∀ v ∈ c.contents, s.Made v) (hoperand : s.Made operand) (fuel : Nat) :
    t.store.equalAt (fuel + 1) (.ref a) operand =
      match s.store.view operand with
      | none => .ok false
      | some d => Store.cellsEqual s.store.items (s.store.equalAt fuel) false c d := by
  have hother : Value.same (.ref a) operand = false :=
    (Value.same_comm _ _).trans (hoperand.same_ref ha)
  have hview : t.store.view (.ref a) = some c := hc
  cases hd : s.store.view operand with
  | none =>
    have hnone := (h.view hoperand).trans hd
    rw [Store.equalAt_eq_simpleEqual rfl (.inr hnone), hview, hnone]
    cases c with
    | tuple | set | dict | frozen => exact congrArg Except.ok hother
    | _ => cases hplain
  | some d =>
    rw [Store.equalAt_of_view hview ((h.view hoperand).trans hd), hother]
    refine (Store.cellsEqual_items ?_ ?_).trans (Store.cellsEqual_congr fun x hx y hy => ?_)
    · rintro e rfl
      cases hplain
    · rintro e rfl
      exact h.items hwhole hd
    · have hx : s.Made x := by
        cases c with
        | tuple | set | dict | frozen => exact hmade x hx
        | _ => cases hplain
      have hy : s.Made y := hwhole.made_of_inner hd hy
      exact ⟨h.equalAt hwhole fuel hx hy, h.equalAt hwhole fuel hy hx⟩

/-- Values that are alike compare in the same way with a value that had been made, as long as the
comparison has the same bound or needs none. -/
theorem Alike.equal (h : s.Alike t₁.store t₂.store v w) (h₁ : s.Later t₁) (h₂ : s.Later t₂)
    (hwhole : s.Whole) (hoperand : s.Made operand)
    (hbound : t₁.store.size = t₂.store.size ∨ s.store.Ends operand) :
    t₁.store.equal v operand = t₂.store.equal w operand := by
  have hsize₁ := h₁.size_le
  have hsize₂ := h₂.size_le
  have hviews : t₁.store.view operand = t₂.store.view operand :=
    (h₁.view hoperand).trans (h₂.view hoperand).symm
  unfold Store.equal Store.depth
  cases h with
  | made hv =>
    rw [h₁.equalAt hwhole _ hv hoperand, h₂.equalAt hwhole _ hv hoperand]
    rcases hbound with hsame | hends
    · rw [hsame]
    · have hnests := hends.nestsWithin
      rw [Store.equalAt_eq (.inr hnests) (Nat.add_le_add_right hsize₁ 2),
        Store.equalAt_eq (.inr hnests) (Nat.add_le_add_right hsize₂ 2)]
  | fresh ha hb hc hd hplain hmade =>
    rw [h₁.equalAt_fresh hwhole ha hc hplain hmade hoperand,
      h₂.equalAt_fresh hwhole hb hd hplain hmade hoperand]
    cases hview : s.store.view operand with
    | none => rfl
    | some d =>
      rcases hbound with hsame | hends
      · rw [hsame]
      · exact Store.cellsEqual_eq hends hview (by omega) (by omega) false
  | @method i j a name hi hj =>
    have hsimple : Store.simpleEqual (.method i a name) operand =
        Store.simpleEqual (.method j a name) operand := by
      cases operand with
      | method k b other =>
        have hk : k < s.serial := hoperand
        have hik : (i == k) = false := beq_eq_false_iff_ne.mpr (by omega)
        have hjk : (j == k) = false := beq_eq_false_iff_ne.mpr (by omega)
        simp only [Store.simpleEqual, hik, hjk]
      | _ => rfl
    rw [Store.equalAt_eq_simpleEqual rfl (.inl rfl), Store.equalAt_eq_simpleEqual rfl (.inl rfl),
      hviews, hsimple]
    rfl
  | @extension i j f receiver hi hj hf hreceiver =>
    have hsimple : Store.simpleEqual (.extension i f receiver) operand =
        Store.simpleEqual (.extension j f receiver) operand := by
      show Value.same _ _ = Value.same _ _
      rw [Value.same_comm, hoperand.same_extension hi, Value.same_comm, hoperand.same_extension hj]
    rw [Store.equalAt_eq_simpleEqual rfl (.inl rfl), Store.equalAt_eq_simpleEqual rfl (.inl rfl),
      hviews, hsimple]
    rfl

/-- So does the operator for equality. -/
theorem Alike.strictEqual (h : s.Alike t₁.store t₂.store v w) (h₁ : s.Later t₁) (h₂ : s.Later t₂)
    (hwhole : s.Whole) (hoperand : s.Made operand)
    (hbound : t₁.store.size = t₂.store.size ∨ s.store.Ends operand) :
    Operator.strictEqual t₁.store v operand = Operator.strictEqual t₂.store w operand := by
  have hmissing : v.isMissing = w.isMissing := by cases h <;> rfl
  have hbool : v.isBool = w.isBool := by cases h <;> rfl
  unfold Operator.strictEqual
  rw [hmissing, hbool, h.equal h₁ h₂ hwhole hoperand hbound]

end State

end Recordset
