import Mathlib.Algebra.Order.Field.Power
import Mathlib.Data.Rat.Cast.Order
import Mathlib.Order.WithBot
import Mathlib.Tactic.Positivity
import Mathlib.Tactic.Ring
import Recordset.Number.Basic
set_option autoImplicit false

/-!
# The order of numbers

Every number but not-a-number has an exact value: a rational number, or an infinity on one of its
sides (`Number.exact`).  Numbers of both kinds compare as their exact values do.

The bits of a finite binary64 number are read as a mantissa and an exponent.  Its mantissa fills all
digits unless the exponent is the least one, so that a greater exponent makes a greater value.

`Number.compare?_eq` is the main statement.
-/

namespace Recordset.Number

open Float.Model (UnpackedFloat)
open Float.Model.UnpackedFloat (Sign)

/-! ## Exact values -/

/-- The value of a finite number. -/
def Dyadic.value (d : Dyadic) : ℚ :=
  (if d.negative then -1 else 1) * (d.mantissa * (2 : ℚ) ^ d.exponent)

/-- The exact value of a number that is not not-a-number. -/
def exact : Number → WithBot (WithTop ℚ)
  | .int n => ((n : ℚ) : WithTop ℚ)
  | .float x =>
    match Dyadic.ofFloat? x with
    | some d => (d.value : WithTop ℚ)
    | none => if isNegative x then ⊥ else ((⊤ : WithTop ℚ) : WithBot (WithTop ℚ))

theorem scaleByTwo_eq (n : Nat) (e : Int) :
    0 < (scaleByTwo n e).2 ∧
      ((scaleByTwo n e).1 : ℚ) / (scaleByTwo n e).2 = n * (2 : ℚ) ^ e := by
  unfold scaleByTwo
  split
  · rename_i he
    obtain ⟨k, rfl⟩ := Int.eq_ofNat_of_zero_le he
    simp [Nat.shiftLeft_eq]
  · rename_i he
    obtain ⟨k, hk⟩ := Int.eq_ofNat_of_zero_le (show 0 ≤ -e by omega)
    obtain rfl : e = -(k : Int) := by omega
    simp [Nat.shiftLeft_eq, div_eq_mul_inv]

/-- The ratio of a finite number is its value. -/
theorem Dyadic.ratio_eq (d : Dyadic) :
    0 < d.ratio.2 ∧ (d.ratio.1 : ℚ) / d.ratio.2 = d.value := by
  obtain ⟨hpos, hvalue⟩ := scaleByTwo_eq d.mantissa d.exponent
  unfold ratio value
  refine ⟨hpos, ?_⟩
  rw [← hvalue]
  cases d.negative <;> simp [neg_div]

/-- Ratios compare as the rational numbers that they are. -/
theorem compareRatios_eq {a b : Int × Nat} (ha : 0 < a.2) (hb : 0 < b.2) :
    compareRatios a b = compare ((a.1 : ℚ) / a.2) ((b.1 : ℚ) / b.2) := by
  have ha' : (0 : ℚ) < a.2 := by exact_mod_cast ha
  have hb' : (0 : ℚ) < b.2 := by exact_mod_cast hb
  unfold compareRatios
  rcases lt_trichotomy ((a.1 : ℚ) / a.2) ((b.1 : ℚ) / b.2) with h | h | h
  · rw [compare_lt_iff_lt.mpr h, compare_lt_iff_lt]
    rw [div_lt_div_iff₀ ha' hb'] at h
    exact_mod_cast h
  · rw [compare_eq_iff_eq.mpr h, compare_eq_iff_eq]
    rw [div_eq_div_iff ha'.ne' hb'.ne'] at h
    exact_mod_cast h
  · rw [compare_gt_iff_gt.mpr h, compare_gt_iff_gt]
    rw [div_lt_div_iff₀ hb' ha'] at h
    exact_mod_cast h

/-! ## The bits of a binary64 number -/

/-- A mantissa that fills all digits, or one with the least exponent. -/
structure Canonical (m : Nat) (e : Int) : Prop where
  lt : m < 2 ^ 53
  least : -1074 ≤ e
  full : e ≠ -1074 → 2 ^ 52 ≤ m

theorem Canonical.ofLeast {m : Nat} {e : Int} (he : e = -1074) (hm : m < 2 ^ 52) :
    Canonical m e :=
  ⟨hm.trans (by decide), he.ge, fun h => absurd he h⟩

theorem Canonical.ofImplicit {m : Nat} {e : Int} (he : -1074 ≤ e) (hm : m < 2 ^ 52) :
    Canonical (2 ^ 52 + m) e :=
  ⟨by omega, he, fun _ => Nat.le_add_right _ _⟩

/-- The sign, the mantissa and the exponent of an exact value. -/
inductive Reads : WithBot (WithTop ℚ) → UnpackedFloat → Prop where
  | bottom : Reads ⊥ (.infinity .negative)
  | top : Reads (⊤ : WithTop ℚ) (.infinity .positive)
  | zero {s : Sign} : Reads ((0 : ℚ) : WithTop ℚ) (.zero s)
  | negative {m : Nat} {e : Int} {hm : 0 < m} (h : Canonical m e) :
      Reads ((-(m * (2 : ℚ) ^ e) : ℚ) : WithTop ℚ) (.finite .negative m e hm)
  | positive {m : Nat} {e : Int} {hm : 0 < m} (h : Canonical m e) :
      Reads ((m * (2 : ℚ) ^ e : ℚ) : WithTop ℚ) (.finite .positive m e hm)

theorem Reads.infinity {s : Sign} {negative : Bool} (hs : negative = true ↔ s = .negative) :
    Reads (if negative then ⊥ else ((⊤ : WithTop ℚ) : WithBot (WithTop ℚ))) (.infinity s) := by
  cases s with
  | negative =>
    rw [if_pos (hs.mpr rfl)]
    exact .bottom
  | positive =>
    rw [if_neg (mt hs.mp Sign.noConfusion)]
    exact .top

theorem Reads.finite {s : Sign} {negative : Bool} {m : Nat} {e : Int} (hm : 0 < m)
    (hs : negative = true ↔ s = .negative) (h : Canonical m e) :
    Reads ((Dyadic.mk negative m e).value : WithTop ℚ) (.finite s m e hm) := by
  unfold Dyadic.value
  cases s with
  | negative =>
    rw [if_pos (hs.mpr rfl), neg_one_mul]
    exact .negative h
  | positive =>
    rw [if_neg (mt hs.mp Sign.noConfusion), one_mul]
    exact .positive h

section

variable (word : BitVec 64)

theorem toNat_unpackMantissa :
    (@UnpackedFloat.unpackMantissa .binary64 word).toNat = word.toNat % 2 ^ 52 := by
  simp [UnpackedFloat.unpackMantissa, BitVec.extractLsb_toNat]

theorem toNat_unpackExponent :
    (@UnpackedFloat.unpackExponent .binary64 word).toNat = word.toNat >>> 52 % 2 ^ 11 := by
  simp [UnpackedFloat.unpackExponent, BitVec.extractLsb_toNat]

theorem toNat_unpackSign :
    (@UnpackedFloat.unpackSign .binary64 word).toNat = word.toNat >>> 63 % 2 := by
  show (BitVec.cast _ (BitVec.extractLsb 63 63 word)).toNat = _
  rw [BitVec.toNat_cast, BitVec.extractLsb_toNat]

/-- The leading digit that a word leaves out. -/
theorem toNat_appendImplicit (m : BitVec 52) : (1#1 ++ m).toNat = 2 ^ 52 + m.toNat := by
  rw [BitVec.toNat_append, ← Nat.shiftLeft_add_eq_or_of_lt m.isLt]
  simp [Nat.shiftLeft_eq]

theorem ofBitVec_unpackSign :
    Sign.ofBitVec (@UnpackedFloat.unpackSign .binary64 word) = .negative ↔
      2 ^ 63 ≤ word.toNat := by
  have hword : word.toNat < 2 ^ 64 := word.isLt
  have hbit := toNat_unpackSign word
  rw [Nat.shiftRight_eq_div_pow] at hbit
  unfold Sign.ofBitVec
  split
  · rename_i hzero
    rw [hzero] at hbit
    have hsmall : word.toNat < 2 ^ 63 := by
      simp only [BitVec.toNat_ofNat] at hbit
      omega
    exact iff_of_false (by simp) (Nat.not_le.mpr hsmall)
  · rename_i hone
    have hlarge : 2 ^ 63 ≤ word.toNat := by
      by_contra hsmall
      refine hone (BitVec.eq_of_toNat_eq ?_)
      rw [hbit, BitVec.toNat_ofNat]
      omega
    exact iff_of_true rfl hlarge

end

/-- The exact value of a number, from its sign and the two fields of its word. -/
def ofFields (negative : Bool) (field fraction : Nat) : WithBot (WithTop ℚ) :=
  if field = 2047 then if negative then ⊥ else (⊤ : WithTop ℚ)
  else if field = 0 then ((Dyadic.mk negative fraction (-1074)).value : WithTop ℚ)
  else ((Dyadic.mk negative (2 ^ 52 + fraction) ((field : Int) - 1075)).value : WithTop ℚ)

theorem exact_float (x : Float) :
    exact (.float x) =
      ofFields (isNegative x) (x.toBits.toNat >>> 52 % 2 ^ 11) (x.toBits.toNat % 2 ^ 52) := by
  have hread : Dyadic.ofFloat? x =
      if x.toBits.toNat >>> 52 % 2 ^ 11 = 2047 then none
      else if x.toBits.toNat >>> 52 % 2 ^ 11 = 0 then
        some ⟨isNegative x, x.toBits.toNat % 2 ^ 52, -1074⟩
      else some ⟨isNegative x, 2 ^ 52 + x.toBits.toNat % 2 ^ 52,
        ((x.toBits.toNat >>> 52 % 2 ^ 11 : Nat) : Int) - 1075⟩ := rfl
  unfold exact ofFields
  simp only [hread]
  split_ifs <;> rfl

/-- The mantissa and the exponent that are read off a word are the ones of its value. -/
theorem reads_word {word : BitVec 64} {negative : Bool}
    (hnegative : negative = true ↔
      Sign.ofBitVec (@UnpackedFloat.unpackSign .binary64 word) = .negative)
    (hnumber : (UnpackedFloat.unpack .binary64 word).isNaN = false) :
    Reads (ofFields negative (@UnpackedFloat.unpackExponent .binary64 word).toNat
        (@UnpackedFloat.unpackMantissa .binary64 word).toNat)
      (UnpackedFloat.unpack .binary64 word) := by
  unfold UnpackedFloat.unpack at hnumber ⊢
  unfold ofFields
  dsimp only at hnumber ⊢
  by_cases hones : @UnpackedFloat.unpackExponent .binary64 word = -1#11
  · rw [if_pos hones] at hnumber ⊢
    rw [if_pos (show _ = 2047 from congrArg BitVec.toNat hones)]
    by_cases hnone : @UnpackedFloat.unpackMantissa .binary64 word = 0#52
    · rw [if_pos hnone]
      exact .infinity hnegative
    · rw [if_neg hnone] at hnumber
      cases hnumber
  · rw [if_neg hones, if_neg (show ¬ _ = 2047 from fun h => hones (BitVec.eq_of_toNat_eq h))]
    by_cases hleast : @UnpackedFloat.unpackExponent .binary64 word = 0#11
    · rw [if_pos hleast, if_pos (show _ = 0 from congrArg BitVec.toNat hleast)]
      by_cases hnone : @UnpackedFloat.unpackMantissa .binary64 word = 0#52
      · have hvalue : (Dyadic.mk negative
            (@UnpackedFloat.unpackMantissa .binary64 word).toNat (-1074)).value = 0 := by
          simp [Dyadic.value, show _ = 0 from congrArg BitVec.toNat hnone]
        rw [dif_pos hnone, hvalue]
        exact .zero
      · rw [dif_neg hnone, hleast]
        exact .finite _ hnegative (.ofLeast rfl (BitVec.isLt _))
    · have hfield : (@UnpackedFloat.unpackExponent .binary64 word).toNat ≠ 0 :=
        fun h => hleast (BitVec.eq_of_toNat_eq h)
      have hexponent :
          -1074 ≤ ((@UnpackedFloat.unpackExponent .binary64 word).toNat : Int) - 1075 := by
        omega
      have hmantissa := toNat_appendImplicit (@UnpackedFloat.unpackMantissa .binary64 word)
      rw [if_neg hleast, if_neg hfield, ← hmantissa]
      exact .finite _ hnegative (hmantissa ▸ .ofImplicit hexponent (BitVec.isLt _))

theorem reads_unpack {x : Float} (hx : x.isNaN = false) :
    Reads (exact (.float x)) x.toModel.unpack := by
  have hnegative : isNegative x = true ↔
      Sign.ofBitVec (@UnpackedFloat.unpackSign .binary64 x.toBits.toBitVec) = .negative := by
    rw [ofBitVec_unpackSign]
    exact decide_eq_true_iff
  have hread := reads_word hnegative hx
  rw [toNat_unpackExponent, toNat_unpackMantissa] at hread
  rw [exact_float]
  exact hread

/-! ## The order -/

/-- A greater exponent makes a greater value. -/
theorem Canonical.lt_of_exponent {m m' : Nat} {e e' : Int} (h : Canonical m e)
    (h' : Canonical m' e') (he : e < e') : m * (2 : ℚ) ^ e < m' * (2 : ℚ) ^ e' := by
  have hfull : (2 : ℚ) ^ 52 ≤ m' := by exact_mod_cast h'.full (by have := h.least; omega)
  have hlt : (m : ℚ) < 2 ^ 53 := by exact_mod_cast h.lt
  have hstep : (2 : ℚ) ^ e * 2 ≤ 2 ^ e' := by
    rw [← zpow_add_one₀ two_ne_zero]
    exact zpow_le_zpow_right₀ one_le_two (by omega)
  calc m * (2 : ℚ) ^ e < 2 ^ 53 * 2 ^ e := by gcongr
    _ = 2 ^ 52 * (2 ^ e * 2) := by ring
    _ ≤ m' * (2 : ℚ) ^ e' := by gcongr

/-- Values compare as their exponents do, and at one exponent as their mantissas do. -/
theorem Canonical.compare_eq {m m' : Nat} {e e' : Int} (h : Canonical m e)
    (h' : Canonical m' e') :
    (compare e e').then (compare m m') = compare (m * (2 : ℚ) ^ e) (m' * (2 : ℚ) ^ e') := by
  rcases lt_trichotomy e e' with he | rfl | he
  · rw [compare_lt_iff_lt.mpr he, compare_lt_iff_lt.mpr (h.lt_of_exponent h' he)]
    rfl
  · have hpos : (0 : ℚ) < 2 ^ e := by positivity
    rw [compare_eq_iff_eq.mpr rfl]
    show compare m m' = _
    rcases lt_trichotomy m m' with hm | rfl | hm
    · rw [compare_lt_iff_lt.mpr hm, compare_lt_iff_lt.mpr]
      gcongr
    · rw [compare_eq_iff_eq.mpr rfl, compare_eq_iff_eq.mpr rfl]
    · rw [compare_gt_iff_gt.mpr hm, compare_gt_iff_gt.mpr]
      show _ < _
      gcongr
  · rw [compare_gt_iff_gt.mpr he, compare_gt_iff_gt.mpr (h'.lt_of_exponent h he)]
    rfl

section

variable {v w : WithBot (WithTop ℚ)}

theorem bot_lt_finite (a : ℚ) : (⊥ : WithBot (WithTop ℚ)) < (a : WithTop ℚ) :=
  WithBot.bot_lt_coe _

theorem finite_lt_top (a : ℚ) :
    ((a : WithTop ℚ) : WithBot (WithTop ℚ)) < ((⊤ : WithTop ℚ) : WithBot (WithTop ℚ)) :=
  WithBot.coe_lt_coe.mpr (WithTop.coe_lt_top a)

theorem finite_lt_finite {a b : ℚ} (h : a < b) :
    ((a : WithTop ℚ) : WithBot (WithTop ℚ)) < (b : WithTop ℚ) :=
  WithBot.coe_lt_coe.mpr (WithTop.coe_lt_coe.mpr h)

theorem compare_map {α β : Type} [LinearOrder α] [LinearOrder β] {f : α → β}
    (hf : StrictMono f) (a b : α) : compare (f a) (f b) = compare a b := by
  rw [← cmp_eq_compare, ← cmp_eq_compare, hf.cmp_map_eq]

theorem compare_swap {α : Type} [LinearOrder α] (a b : α) : (compare a b).swap = compare b a := by
  rw [← cmp_eq_compare, ← cmp_eq_compare, cmp_swap]

/-- Finite values compare as rational numbers. -/
theorem compare_finite (a b : ℚ) :
    compare ((a : WithTop ℚ) : WithBot (WithTop ℚ)) (b : WithTop ℚ) = compare a b :=
  compare_map (WithBot.coe_strictMono.comp WithTop.coe_strictMono) a b

/-- Negation turns the order round. -/
theorem compare_neg (a b : ℚ) : compare (-a) (-b) = (compare a b).swap := by
  have hanti : StrictAnti fun q : ℚ => -q := fun _ _ => neg_lt_neg
  rw [compare_swap, ← cmp_eq_compare, ← cmp_eq_compare]
  exact hanti.cmp_map_eq a b

theorem some_lt (h : v < w) : some Ordering.lt = some (compare v w) :=
  congrArg some (compare_lt_iff_lt.mpr h).symm

theorem some_eq (h : v = w) : some Ordering.eq = some (compare v w) :=
  congrArg some (compare_eq_iff_eq.mpr h).symm

theorem some_gt (h : w < v) : some Ordering.gt = some (compare v w) :=
  congrArg some (compare_gt_iff_gt.mpr h).symm

theorem size_pos {m : Nat} (hm : 0 < m) (e : Int) : 0 < m * (2 : ℚ) ^ e := by
  have : (0 : ℚ) < m := by exact_mod_cast hm
  positivity

/-- Two read numbers compare as their values do. -/
theorem Reads.compare_eq {a b : UnpackedFloat} (ha : Reads v a)
    (hb : Reads w b) : a.compare b = some (compare v w) := by
  cases ha with
  | bottom =>
    cases hb with
    | bottom => exact some_eq rfl
    | top => exact some_lt (WithBot.bot_lt_coe _)
    | zero | negative | positive => exact some_lt (bot_lt_finite _)
  | top =>
    cases hb with
    | bottom => exact some_gt (WithBot.bot_lt_coe _)
    | top => exact some_eq rfl
    | zero | negative | positive => exact some_gt (finite_lt_top _)
  | zero =>
    cases hb with
    | bottom => exact some_gt (bot_lt_finite _)
    | top => exact some_lt (finite_lt_top _)
    | zero => exact some_eq rfl
    | @negative _ e hm => exact some_gt (finite_lt_finite (neg_lt_zero.mpr (size_pos hm e)))
    | @positive _ e hm => exact some_lt (finite_lt_finite (size_pos hm e))
  | @negative m e hm h =>
    have hneg := neg_lt_zero.mpr (size_pos hm e)
    cases hb with
    | bottom => exact some_gt (bot_lt_finite _)
    | top => exact some_lt (finite_lt_top _)
    | zero => exact some_lt (finite_lt_finite hneg)
    | negative h' =>
      show some ((compare _ _).then (compare _ _)).swap = _
      rw [h.compare_eq h', ← compare_neg, compare_finite]
    | @positive _ e' hm' => exact some_lt (finite_lt_finite (hneg.trans (size_pos hm' e')))
  | @positive m e hm h =>
    have hpos := size_pos hm e
    cases hb with
    | bottom => exact some_gt (bot_lt_finite _)
    | top => exact some_lt (finite_lt_top _)
    | zero => exact some_gt (finite_lt_finite hpos)
    | @negative _ e' hm' =>
      exact some_gt (finite_lt_finite ((neg_lt_zero.mpr (size_pos hm' e')).trans hpos))
    | positive h' =>
      show some ((compare _ _).then (compare _ _)) = _
      rw [h.compare_eq h', compare_finite]

end

/-! ## Comparison -/

/-- Whether a number is not-a-number. -/
def isNaN : Number → Bool
  | .int _ => false
  | .float x => x.isNaN

theorem lt_iff_compare (x y : Float) :
    x < y ↔ x.toModel.unpack.compare y.toModel.unpack = some .lt := by
  show decide (x.toModel < y.toModel) = true ↔ _
  rw [decide_eq_true_iff]
  exact beq_iff_eq

theorem beq_iff_compare (x y : Float) :
    (x == y) = true ↔ x.toModel.unpack.compare y.toModel.unpack = some .eq :=
  Iff.trans Iff.rfl (@beq_iff_eq _ _ _ (x.toModel.unpack.compare y.toModel.unpack) (some .eq))

theorem compare?_float {x y : Float} (hx : x.isNaN = false) (hy : y.isNaN = false) :
    compare? (.float x) (.float y) = some (compare (exact (.float x)) (exact (.float y))) := by
  have hcompare := (reads_unpack hx).compare_eq (reads_unpack hy)
  have hlt := lt_iff_compare x y
  have heq := beq_iff_compare x y
  rw [hcompare, Option.some_inj] at hlt heq
  show (if x.isNaN ∨ y.isNaN then none
    else if x < y then some Ordering.lt else if x == y then some .eq else some .gt) = _
  rw [if_neg (by rw [hx, hy]; decide)]
  cases hcase : compare (exact (.float x)) (exact (.float y)) with
  | lt => rw [if_pos (hlt.mpr hcase)]
  | eq => rw [if_neg (by simp [hlt, hcase]), if_pos (heq.mpr hcase)]
  | gt => rw [if_neg (by simp [hlt, hcase]), if_neg (by simp [heq, hcase])]

/-- A binary64 number compares with a ratio as its exact value does. -/
theorem compareFloat_eq {x : Float} (hx : x.isNaN = false) {r : Int × Nat} (hr : 0 < r.2) :
    compareFloat x r =
      some (compare (exact (.float x)) (((r.1 : ℚ) / r.2 : ℚ) : WithTop ℚ)) := by
  unfold compareFloat exact
  dsimp only
  cases Dyadic.ofFloat? x with
  | some d =>
    obtain ⟨hpos, hvalue⟩ := d.ratio_eq
    show some (compareRatios d.ratio r) = _
    rw [compareRatios_eq hpos hr, hvalue]
    exact congrArg some (compare_finite _ _).symm
  | none =>
    show (if x.isNaN then none else some (if isNegative x then Ordering.lt else .gt)) = _
    rw [if_neg (by rw [hx]; decide)]
    cases isNegative x with
    | true => exact some_lt (bot_lt_finite _)
    | false => exact some_gt (finite_lt_top _)

/-- Numbers compare as their exact values do. -/
theorem compare?_eq {a b : Number} (ha : a.isNaN = false) (hb : b.isNaN = false) :
    compare? a b = some (compare a.exact b.exact) := by
  cases a with
  | int m =>
    cases b with
    | int n =>
      show some (compare m n) =
        some (compare (((m : ℚ) : WithTop ℚ) : WithBot (WithTop ℚ)) ((n : ℚ) : WithTop ℚ))
      rw [compare_finite, compare_map Int.cast_strictMono]
    | float y =>
      show (compareFloat y (m, 1)).map Ordering.swap = _
      rw [compareFloat_eq hb Nat.one_pos, Option.map_some, compare_swap]
      simp [exact]
  | float x =>
    cases b with
    | int n =>
      show compareFloat x (n, 1) = _
      rw [compareFloat_eq ha Nat.one_pos]
      simp [exact]
    | float y => exact compare?_float ha hb

/-- Not-a-number has no mantissa and no exponent. -/
theorem ofFloat?_of_isNaN {x : Float} (hx : x.isNaN = true) : Dyadic.ofFloat? x = none := by
  have hones : @UnpackedFloat.unpackExponent .binary64 x.toBits.toBitVec = -1#11 := by
    have hunpack : (UnpackedFloat.unpack .binary64 x.toBits.toBitVec).isNaN = true := hx
    unfold UnpackedFloat.unpack at hunpack
    dsimp only at hunpack
    by_contra hones
    rw [if_neg hones] at hunpack
    by_cases hleast : @UnpackedFloat.unpackExponent .binary64 x.toBits.toBitVec = 0#11
    · rw [if_pos hleast] at hunpack
      by_cases hzero : @UnpackedFloat.unpackMantissa .binary64 x.toBits.toBitVec = 0#52
      · rw [dif_pos hzero] at hunpack
        cases hunpack
      · rw [dif_neg hzero] at hunpack
        cases hunpack
    · rw [if_neg hleast] at hunpack
      cases hunpack
  have hfield : x.toBits.toNat >>> 52 % 2 ^ 11 = 2047 := by
    rw [← UInt64.toNat_toBitVec, ← toNat_unpackExponent, hones]
    rfl
  exact if_pos hfield

/-- Not-a-number does not compare with anything. -/
theorem compare?_of_isNaN {a b : Number} (h : a.isNaN = true ∨ b.isNaN = true) :
    compare? a b = none := by
  have hratio : ∀ {x : Float} {r : Int × Nat}, x.isNaN = true → compareFloat x r = none := by
    intro x r hx
    unfold compareFloat
    rw [ofFloat?_of_isNaN hx]
    exact if_pos hx
  cases a with
  | int m =>
    have hb := h.resolve_left Bool.false_ne_true
    cases b with
    | int n => cases hb
    | float y =>
      show (compareFloat y (m, 1)).map Ordering.swap = none
      rw [hratio hb]
      rfl
  | float x =>
    cases b with
    | int n => exact hratio (h.resolve_right Bool.false_ne_true)
    | float y => exact if_pos h

end Recordset.Number
