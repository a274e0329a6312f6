import Mathlib.Data.String.Basic
import Mathlib.Data.Sum.Order
import Recordset.Proofs.Equality
import Recordset.Proofs.Number.Exact
import Recordset.Value.Order
set_option autoImplicit false

/-!
# The order of numbers and texts

Numbers are ordered by their exact values, and texts by code points (`Value.measure?`).  A
comparison of two numbers, or of two texts, says of them what it says of their measures, and so
does equality.  Between a number and a text there is no order, and not-a-number has none either.

`Store.compare_of_ordered` is the main statement.
-/

namespace Recordset

/-! ## Comparisons in an order -/

namespace Comparison

/-- What a comparison says of two things of an order. -/
def Orders {α : Type} [LE α] [LT α] (c : Comparison) (a b : α) : Prop :=
  match c with
  | less => a < b
  | lessEqual => a ≤ b
  | greater => b < a
  | greaterEqual => b ≤ a

theorem holds_compare {α : Type} [LinearOrder α] (c : Comparison) (a b : α) :
    c.holds (compare a b) = true ↔ c.Orders a b := by
  rcases lt_trichotomy a b with h | rfl | h
  · rw [compare_lt_iff_lt.mpr h]
    cases c <;> simp [holds, Orders, h, h.le, h.not_gt, h.not_ge]
  · rw [compare_eq_iff_eq.mpr rfl]
    cases c <;> simp [holds, Orders]
  · rw [compare_gt_iff_gt.mpr h]
    cases c <;> simp [holds, Orders, h, h.le, h.not_gt, h.not_ge]

theorem orders_inl {α β : Type} [LE α] [LT α] [LE β] [LT β] (c : Comparison) (a b : α) :
    c.Orders (Sum.inl a : α ⊕ β) (.inl b) ↔ c.Orders a b := by
  cases c <;> simp [Orders]

theorem orders_inr {α β : Type} [LE α] [LT α] [LE β] [LT β] (c : Comparison) (a b : β) :
    c.Orders (Sum.inr a : α ⊕ β) (.inr b) ↔ c.Orders a b := by
  cases c <;> simp [Orders]

/-- Of two things that have no order nothing is said. -/
theorem not_orders {α : Type} [Preorder α] {a b : α} (h : ¬ (a ≤ b ∨ b ≤ a)) (c : Comparison) :
    ¬ c.Orders a b := by
  obtain ⟨hab, hba⟩ := not_or.mp h
  cases c with
  | less => exact fun hlt => hab (le_of_lt hlt)
  | lessEqual => exact hab
  | greater => exact fun hlt => hba (le_of_lt hlt)
  | greaterEqual => exact hba

/-- The comparisons that nothing fulfils with itself. -/
def IsStrict (c : Comparison) : Prop := c = less ∨ c = greater

section

variable {α : Type} [PartialOrder α] {c : Comparison} {a b d : α} (hc : c.IsStrict)

include hc

theorem not_orders_self (a : α) : ¬ c.Orders a a := by
  rcases hc with rfl | rfl <;> exact lt_irrefl a

theorem orders_trans (hab : c.Orders a b) (hbd : c.Orders b d) : c.Orders a d := by
  rcases hc with rfl | rfl
  · exact lt_trans hab hbd
  · exact lt_trans hbd hab

/-- Two things that have an order are the same, or one is in front of the other. -/
theorem orders_or (h : a ≤ b ∨ b ≤ a) : c.Orders a b ∨ a = b ∨ c.Orders b a := by
  have hlt : a < b ∨ a = b ∨ b < a := by
    rcases h with h | h
    · exact h.lt_or_eq.imp_right .inl
    · exact h.lt_or_eq.elim (fun h => .inr (.inr h)) fun h => .inr (.inl h.symm)
  rcases hc with rfl | rfl
  · exact hlt
  · exact hlt.elim (fun h => .inr (.inr h)) fun h => h.elim (fun h => .inr (.inl h)) .inl

/-- What is in front of something is in front of all that is not in front of that. -/
theorem orders_of_not (hab : c.Orders a b) (hdb : ¬ c.Orders d b) (h : d ≤ b ∨ b ≤ d) :
    c.Orders a d := by
  rcases orders_or hc h with hd | rfl | hd
  · exact absurd hd hdb
  · exact hab
  · exact orders_trans hc hab hd

end

end Comparison

/-! ## Measures -/

/-- What the order of values goes by: the exact value of a number, or a text.  Numbers and texts
have no order among them, and neither not-a-number nor anything else has an order. -/
def Value.measure? (v : Value) : Option (WithBot (WithTop ℚ) ⊕ String) :=
  match v.number? with
  | some n => if n.isNaN then none else some (.inl n.exact)
  | none => v.str?.map .inr

/-- A number other than not-a-number. -/
def Value.IsNumber (v : Value) : Prop := ∃ n, v.number? = some n ∧ n.isNaN = false

/-- Not-a-number. -/
def Value.IsNaN (v : Value) : Prop := ∃ n, v.number? = some n ∧ n.isNaN = true

/-- A text. -/
def Value.IsText (v : Value) : Prop := ∃ t, v = .str t

/-- Two values have an order among them: both are numbers, or both are texts. -/
def Value.Ordered (v w : Value) : Prop :=
  ∃ m n, v.measure? = some m ∧ w.measure? = some n ∧ (m ≤ n ∨ n ≤ m)

namespace Value

variable {v w : Value}

theorem measure?_number {n : Number} (hv : v.number? = some n) (hn : n.isNaN = false) :
    v.measure? = some (.inl n.exact) := by
  unfold measure?
  rw [hv]
  exact if_neg (by rw [hn]; exact Bool.false_ne_true)

/-- What has a measure is a number or a text. -/
theorem cases_of_measure? {m : WithBot (WithTop ℚ) ⊕ String} (h : v.measure? = some m) :
    (∃ n, v.number? = some n ∧ n.isNaN = false ∧ m = .inl n.exact) ∨
      ∃ t, v = .str t ∧ m = .inr t := by
  unfold measure? at h
  cases hn : v.number? with
  | some n =>
    rw [hn] at h
    dsimp only at h
    split at h
    · cases h
    · rename_i hnan
      exact .inl ⟨n, rfl, Bool.eq_false_iff.mpr hnan, (Option.some.inj h).symm⟩
  | none =>
    rw [hn] at h
    cases v with
    | str t => exact .inr ⟨t, rfl, (Option.some.inj h).symm⟩
    | _ => cases h

theorem isAbsent_of_number? {n : Number} (h : v.number? = some n) : v.isAbsent = false := by
  cases v with
  | null | missing => cases h
  | _ => rfl

theorem isAbsent_of_measure? {m : WithBot (WithTop ℚ) ⊕ String} (h : v.measure? = some m) :
    v.isAbsent = false := by
  cases v with
  | null | missing => cases h
  | _ => rfl

theorem IsNumber.ordered (hv : v.IsNumber) (hw : w.IsNumber) : v.Ordered w := by
  obtain ⟨m, hm, hmnan⟩ := hv
  obtain ⟨n, hn, hnnan⟩ := hw
  refine ⟨_, _, measure?_number hm hmnan, measure?_number hn hnnan, ?_⟩
  rw [Sum.inl_le_inl_iff, Sum.inl_le_inl_iff]
  exact le_total _ _

theorem IsText.ordered (hv : v.IsText) (hw : w.IsText) : v.Ordered w := by
  obtain ⟨x, rfl⟩ := hv
  obtain ⟨y, rfl⟩ := hw
  refine ⟨.inr x, .inr y, rfl, rfl, ?_⟩
  rw [Sum.inr_le_inr_iff, Sum.inr_le_inr_iff]
  exact le_total x y

end Value

/-! ## Comparing values -/

namespace Store

variable (s : Store) (c : Comparison) {v w : Value} {m n : Number}

/-- Numbers are compared as numbers. -/
theorem compare_number (hv : v.number? = some m) (hw : w.number? = some n) :
    s.compare c v w = .ok ((Number.compare? m n).any c.holds) := by
  unfold compare depth compareAt
  simp only [hv, hw]
  rfl

/-- Nothing is said of not-a-number and a number. -/
theorem compare_nan (hv : v.number? = some m) (hw : w.number? = some n)
    (h : m.isNaN = true ∨ n.isNaN = true) : s.compare c v w = .ok false := by
  rw [s.compare_number c hv hw, Number.compare?_of_isNaN h]
  rfl

/-- Texts are compared by code points. -/
theorem compare_text (x y : String) :
    s.compare c (.str x) (.str y) = .ok (c.holds (Ord.compare x y)) := by
  show Except.ok (c.holds (compareText x y)) = _
  rcases lt_trichotomy x y with h | rfl | h
  · rw [compare_lt_iff_lt.mpr h]
    simp [compareText, h]
  · rw [compare_eq_iff_eq.mpr rfl]
    simp [compareText]
  · rw [compare_gt_iff_gt.mpr h]
    simp [compareText, h.not_gt, h.ne']

/-- Between a number and a text there is no order. -/
theorem compare_number_text (hv : v.number? = some n) (t : String) :
    ∃ left right, s.compare c v (.str t) = .error (.fault (.unordered c.symbol left right)) := by
  cases v with
  | bool | int | float | nan => exact ⟨_, _, rfl⟩
  | _ => cases hv

theorem compare_text_number (hv : v.number? = some n) (t : String) :
    ∃ left right, s.compare c (.str t) v = .error (.fault (.unordered c.symbol left right)) := by
  cases v with
  | bool | int | float | nan => exact ⟨_, _, rfl⟩
  | _ => cases hv

variable {k l : WithBot (WithTop ℚ) ⊕ String}

/-- Values that have an order are compared by their measures. -/
theorem compare_of_ordered (hv : v.measure? = some k) (hw : w.measure? = some l)
    (h : k ≤ l ∨ l ≤ k) : Decides (s.compare c v w) (c.Orders k l) := by
  rcases Value.cases_of_measure? hv with ⟨m, hm, hmnan, rfl⟩ | ⟨x, rfl, rfl⟩ <;>
    rcases Value.cases_of_measure? hw with ⟨n, hn, hnnan, rfl⟩ | ⟨y, rfl, rfl⟩
  · refine ⟨_, s.compare_number c hm hn, ?_⟩
    rw [Number.compare?_eq hmnan hnnan, Option.any_some, Comparison.orders_inl]
    exact c.holds_compare _ _
  · simp at h
  · simp at h
  · refine ⟨_, s.compare_text c x y, ?_⟩
    rw [Comparison.orders_inr]
    exact c.holds_compare _ _

/-- Values of two kinds have no order, and nothing is said of them. -/
theorem compare_of_unordered (hv : v.measure? = some k) (hw : w.measure? = some l)
    (h : ¬ (k ≤ l ∨ l ≤ k)) :
    ∃ left right, s.compare c v w = .error (.fault (.unordered c.symbol left right)) := by
  rcases Value.cases_of_measure? hv with ⟨m, hm, hmnan, rfl⟩ | ⟨x, rfl, rfl⟩ <;>
    rcases Value.cases_of_measure? hw with ⟨n, hn, hnnan, rfl⟩ | ⟨y, rfl, rfl⟩
  · rw [Sum.inl_le_inl_iff, Sum.inl_le_inl_iff] at h
    exact absurd (le_total _ _) h
  · exact s.compare_number_text c hm y
  · exact s.compare_text_number c hn x
  · rw [Sum.inr_le_inr_iff, Sum.inr_le_inr_iff] at h
    exact absurd (le_total x y) h

/-- Numbers are equal as numbers. -/
theorem equal_number (hv : v.number? = some m) (hw : w.number? = some n) :
    s.equal v w = .ok (Number.equal m n) := by
  unfold equal depth equalAt
  simp only [hv, hw]
  rfl

/-- Not-a-number is equal to no number. -/
theorem equal_nan (hv : v.number? = some m) (hw : w.number? = some n)
    (h : m.isNaN = true ∨ n.isNaN = true) : s.equal v w = .ok false := by
  rw [s.equal_number hv hw]
  unfold Number.equal
  rw [Number.compare?_of_isNaN h]
  rfl

/-- Values with measures are equal when their measures are. -/
theorem equal_of_measures (hv : v.measure? = some k) (hw : w.measure? = some l) :
    Decides (s.equal v w) (k = l) := by
  rcases Value.cases_of_measure? hv with ⟨m, hm, hmnan, rfl⟩ | ⟨x, rfl, rfl⟩ <;>
    rcases Value.cases_of_measure? hw with ⟨n, hn, hnnan, rfl⟩ | ⟨y, rfl, rfl⟩
  · refine ⟨Number.equal m n, s.equal_number hm hn, ?_⟩
    unfold Number.equal
    rw [Number.compare?_eq hmnan hnnan, beq_iff_eq, Option.some_inj, compare_eq_iff_eq,
      Sum.inl.injEq]
  · refine ⟨false, ?_, by simp⟩
    cases v with
    | bool | int | float | nan => rfl
    | _ => cases hm
  · refine ⟨false, ?_, by simp⟩
    cases w with
    | bool | int | float | nan => rfl
    | _ => cases hn
  · refine ⟨x == y, rfl, ?_⟩
    rw [Sum.inr.injEq, beq_iff_eq]

end Store

end Recordset
