import Recordset.Aggregate
import Recordset.Proofs.Action
import Recordset.Proofs.Order
set_option autoImplicit false

/-!
# The least and the greatest value

Of values that are all numbers, or all texts, the least one is found and the greatest one, the
first of several that are equal; absent values are skipped (`Aggregate.foldlM_extreme_ok`).
Not-a-number is not skipped: it is the result when it comes first, and is passed over when it comes
later.  So the result depends on the order of the values exactly when there are not-a-number and
other numbers among them.

`Aggregate.extremes_agree_iff` is the main statement.
-/

namespace Recordset.Aggregate

variable {s : Store} {c : Comparison} {v w r : Value} {vs ws front back : List Value}

/-! ## The first of the best values -/

/-- Values that are all numbers, or all texts, where they are not absent. -/
def Comparable (vs : List Value) : Prop :=
  (∀ v ∈ vs, v.isAbsent = false → ∃ n, v.number? = some n) ∨
    ∀ v ∈ vs, v.isAbsent = false → v.IsText

/-- A value of a list comes in front of those before it, and none after it comes in front of it. -/
def IsFirstBest (c : Comparison) (vs : List Value) (r : Value) : Prop :=
  ∃ front back l, vs = front ++ r :: back ∧ r.measure? = some l ∧
    (∀ v ∈ front, ∀ m, v.measure? = some m → c.Orders l m) ∧
    ∀ v ∈ back, ∀ m, v.measure? = some m → ¬ c.Orders m l

/-- The first value that is not absent. -/
def first? (vs : List Value) : Option Value := vs.find? fun v => !v.isAbsent

theorem first?_eq_none_iff : first? vs = none ↔ ∀ v ∈ vs, v.isAbsent = true := by
  unfold first?
  simp

theorem first?_snoc (h : first? vs = some r) : first? (vs ++ [v]) = some r := by
  unfold first? at h ⊢
  rw [List.find?_append, h]
  rfl

theorem first?_snoc_first (h : first? vs = none) (hv : v.isAbsent = false) :
    first? (vs ++ [v]) = some v := by
  unfold first? at h ⊢
  rw [List.find?_append, h]
  simp [hv]

theorem first?_snoc_absent (h : first? vs = none) (hv : v.isAbsent = true) :
    first? (vs ++ [v]) = none := by
  unfold first? at h ⊢
  rw [List.find?_append, h]
  simp [hv]

theorem ne_null_of_number? {n : Number} (h : v.number? = some n) : v ≠ .null := by
  rintro rfl
  cases h

theorem Comparable.mono (h : Comparable vs) (hws : ∀ w ∈ ws, w ∈ vs) : Comparable ws :=
  h.imp (fun h w hw => h w (hws w hw)) fun h w hw => h w (hws w hw)

theorem measure?_of_isAbsent (h : v.isAbsent = true) : v.measure? = none := by
  cases v with
  | null | missing => rfl
  | _ => cases h

/-- What has a measure, among comparable values, has an order with all others that have one. -/
theorem Comparable.ordered (h : Comparable vs) (hv : v ∈ vs) (hw : w ∈ vs)
    {m n : WithBot (WithTop ℚ) ⊕ String} (hm : v.measure? = some m) (hn : w.measure? = some n) :
    m ≤ n ∨ n ≤ m := by
  have hordered : v.Ordered w := by
    rcases h with h | h
    · have hnumber : ∀ {x k}, x ∈ vs → x.measure? = some k → x.IsNumber := by
        intro x k hx hk
        obtain ⟨n, hn⟩ := h x hx (Value.isAbsent_of_measure? hk)
        rcases Value.cases_of_measure? hk with ⟨n', hn', hnan, -⟩ | ⟨t, rfl, -⟩
        · exact ⟨n', hn', hnan⟩
        · cases hn
      exact (hnumber hv hm).ordered (hnumber hw hn)
    · exact (h v hv (Value.isAbsent_of_measure? hm)).ordered
        (h w hw (Value.isAbsent_of_measure? hn))
  obtain ⟨m', n', hm', hn', hmn⟩ := hordered
  obtain rfl : m' = m := Option.some.inj (hm'.symm.trans hm)
  obtain rfl : n' = n := Option.some.inj (hn'.symm.trans hn)
  exact hmn

theorem measure?_of_isNaN {n : Number} (hn : v.number? = some n) (h : n.isNaN = true) :
    v.measure? = none := by
  unfold Value.measure?
  rw [hn]
  exact if_pos h

/-- What has no measure, among numbers, is not-a-number. -/
theorem isNaN_of_measure?_none {n : Number} (hn : v.number? = some n) (h : v.measure? = none) :
    n.isNaN = true := by
  unfold Value.measure? at h
  rw [hn] at h
  dsimp only at h
  by_contra hnan
  rw [if_neg hnan] at h
  cases h

/-- With a number, all of comparable values that are there are numbers. -/
theorem Comparable.number (h : Comparable vs) (hw : w ∈ vs) {n : Number} (hn : w.number? = some n)
    (hv : v ∈ vs) (hthere : v.isAbsent = false) : ∃ m, v.number? = some m := by
  rcases h with h | h
  · exact h v hv hthere
  · obtain ⟨t, rfl⟩ := h w hw (Value.isAbsent_of_number? hn)
    cases hn

/-- What is there without a measure, among comparable values, is not-a-number. -/
theorem Comparable.isNaN_of_unmeasured (h : Comparable vs) (hv : v ∈ vs)
    (hthere : v.isAbsent = false) (hm : v.measure? = none) : v.IsNaN := by
  rcases h with h | h
  · obtain ⟨n, hn⟩ := h v hv hthere
    exact ⟨n, hn, isNaN_of_measure?_none hn hm⟩
  · obtain ⟨t, rfl⟩ := h v hv hthere
    cases hm

theorem IsFirstBest.mem (h : IsFirstBest c vs r) : r ∈ vs := by
  obtain ⟨front, back, l, rfl, -⟩ := h
  exact List.mem_append_right front List.mem_cons_self

theorem IsFirstBest.exists_measure (h : IsFirstBest c vs r) : ∃ l, r.measure? = some l := by
  obtain ⟨front, back, l, -, hl, -⟩ := h
  exact ⟨l, hl⟩

/-- A value that is the only one with a measure is the best one. -/
theorem isFirstBest_snoc {l : WithBot (WithTop ℚ) ⊕ String} (hl : r.measure? = some l)
    (hfront : ∀ v ∈ front, v.isAbsent = true) : IsFirstBest c (front ++ [r]) r := by
  refine ⟨front, [], l, rfl, hl, fun v hv m hm => ?_, fun v hv => absurd hv List.not_mem_nil⟩
  rw [measure?_of_isAbsent (hfront v hv)] at hm
  cases hm

/-- The best of numbers is a number. -/
theorem IsFirstBest.isNumber (h : IsFirstBest c vs r)
    (hnumbers : ∀ v ∈ vs, v.isAbsent = false → ∃ n, v.number? = some n) : r.IsNumber := by
  obtain ⟨l, hl⟩ := h.exists_measure
  obtain ⟨n, hn⟩ := hnumbers r h.mem (Value.isAbsent_of_measure? hl)
  rcases Value.cases_of_measure? hl with ⟨k, hk, hnan, -⟩ | ⟨t, rfl, -⟩
  · exact ⟨k, hk, hnan⟩
  · cases hn

/-- No value comes in front of the best one. -/
theorem IsFirstBest.not_orders (hc : c.IsStrict) (h : IsFirstBest c vs r)
    {l m : WithBot (WithTop ℚ) ⊕ String} (hl : r.measure? = some l) (hv : v ∈ vs)
    (hm : v.measure? = some m) : ¬ c.Orders m l := by
  obtain ⟨front, back, l', rfl, hl', hfront, hback⟩ := h
  obtain rfl : l = l' := Option.some.inj (hl.symm.trans hl')
  rcases List.mem_append.mp hv with hv | hv
  · exact fun horders => Comparison.not_orders_self hc l
      (Comparison.orders_trans hc (hfront v hv m hm) horders)
  · rcases List.mem_cons.mp hv with rfl | hv
    · obtain rfl : l = m := Option.some.inj (hl.symm.trans hm)
      exact Comparison.not_orders_self hc l
    · exact hback v hv m hm

/-- The best value stays the best when the next one does not come in front of it. -/
theorem IsFirstBest.snoc_kept (h : IsFirstBest c vs r)
    (hv : ∀ l m, r.measure? = some l → v.measure? = some m → ¬ c.Orders m l) :
    IsFirstBest c (vs ++ [v]) r := by
  obtain ⟨front, back, l, rfl, hl, hfront, hback⟩ := h
  refine ⟨front, back ++ [v], l, by simp, hl, hfront, fun w hw m hm => ?_⟩
  rcases List.mem_append.mp hw with hw | hw
  · exact hback w hw m hm
  · obtain rfl := List.mem_singleton.mp hw
    exact hv l m hl hm

/-- The next value is the best one when it comes in front of the one that was. -/
theorem IsFirstBest.snoc_taken (hc : c.IsStrict) (h : IsFirstBest c vs r)
    (hcomparable : Comparable vs) {l m : WithBot (WithTop ℚ) ⊕ String} (hl : r.measure? = some l)
    (hm : v.measure? = some m) (horders : c.Orders m l) : IsFirstBest c (vs ++ [v]) v := by
  refine ⟨vs, [], m, rfl, hm, fun w hw k hk => ?_, fun w hw => absurd hw List.not_mem_nil⟩
  exact Comparison.orders_of_not hc horders (h.not_orders hc hl hw hk)
    (hcomparable.ordered hw h.mem hk hl)

/-! ## One step -/

theorem extreme_absent (current : Value) (h : v.isAbsent = true) :
    extreme s c current v = .ok current := if_pos h

theorem extreme_first (h : v.isAbsent = false) : extreme s c .null v = .ok v := by
  unfold extreme
  rw [h]
  rfl

theorem extreme_better {current : Value} (hcurrent : current ≠ .null) (h : v.isAbsent = false) :
    extreme s c current v = better s c current v := by
  unfold extreme
  rw [h]
  cases current with
  | null => exact absurd rfl hcurrent
  | _ => rfl

/-- The next value takes the place of the current one when the comparison says so. -/
theorem better_of_compare {current : Value} {b : Bool} (h : s.compare c v current = .ok b) :
    better s c current v = .ok (if b then v else current) := by
  unfold better
  rw [h]

/-- Values with measures that have no order are refused, when they can be written. -/
theorem extreme_unordered {k l : WithBot (WithTop ℚ) ⊕ String} (hr : r.measure? = some k)
    (hv : v.measure? = some l) (h : ¬ (l ≤ k ∨ k ≤ l)) {x y : String} (hx : s.shown r = .ok x)
    (hy : s.shown v = .ok y) : extreme s c r v = .error (.refusal (.incomparable x y)) := by
  have hnull : r ≠ .null := by
    rintro rfl
    cases hr
  obtain ⟨left, right, hrun⟩ := s.compare_of_unordered c hv hr h
  rw [extreme_better hnull (Value.isAbsent_of_measure? hv)]
  unfold better
  rw [hrun]
  dsimp only
  rw [if_pos (show Error.isType (.fault (.unordered c.symbol left right)) = true from rfl), hx, hy]
  rfl

/-- The best of the values so far, and then the best of these and the next one. -/
theorem IsFirstBest.extreme_ok (hc : c.IsStrict) (h : IsFirstBest c vs r)
    (hcomparable : Comparable (vs ++ [v])) :
    ∃ r', extreme s c r v = .ok r' ∧ IsFirstBest c (vs ++ [v]) r' := by
  obtain ⟨l, hl⟩ := h.exists_measure
  have hr : r ∈ vs ++ [v] := List.mem_append_left _ h.mem
  have hv : v ∈ vs ++ [v] := List.mem_append_right _ List.mem_cons_self
  have hnull : r ≠ .null := by
    rintro rfl
    cases hl
  cases habsent : v.isAbsent with
  | true =>
    refine ⟨r, extreme_absent r habsent, h.snoc_kept fun l m _ hm => ?_⟩
    rw [measure?_of_isAbsent habsent] at hm
    cases hm
  | false =>
    rw [extreme_better hnull habsent]
    cases hm : v.measure? with
    | some m =>
      obtain ⟨b, hrun, hb⟩ := s.compare_of_ordered c hm hl (hcomparable.ordered hv hr hm hl)
      refine ⟨_, better_of_compare hrun, ?_⟩
      cases b with
      | true =>
        exact h.snoc_taken hc (hcomparable.mono fun w => List.mem_append_left _) hl hm
          (hb.mp rfl)
      | false =>
        refine h.snoc_kept fun l' m' hl' hm' => ?_
        obtain rfl : l' = l := Option.some.inj (hl'.symm.trans hl)
        obtain rfl : m = m' := Option.some.inj (hm.symm.trans hm')
        exact fun horders => Bool.false_ne_true (hb.mpr horders)
    | none =>
      obtain ⟨n, hn, hnan⟩ := hcomparable.isNaN_of_unmeasured hv habsent hm
      obtain ⟨k, hk⟩ := hcomparable.number hv hn hr (Value.isAbsent_of_measure? hl)
      refine ⟨r, better_of_compare (s.compare_nan c hn hk (.inl hnan)),
        h.snoc_kept fun l' m' _ hm' => ?_⟩
      rw [hm] at hm'
      cases hm'

/-! ## Runs -/

/-- The result for a list of values: nothing where nothing is there, not-a-number where that comes
first of what is there, and the first of the best values otherwise. -/
inductive IsExtreme (c : Comparison) (vs : List Value) : Value → Prop where
  | nothing (h : first? vs = none) : IsExtreme c vs .null
  | nan {v : Value} (hfirst : first? vs = some v) (hv : v.IsNaN) : IsExtreme c vs v
  | best {v w : Value} (hfirst : first? vs = some v) (hv : v.measure?.isSome = true)
    (h : IsFirstBest c vs w) : IsExtreme c vs w

/-- The extreme one of some values, and then of these and the next one. -/
theorem IsExtreme.extreme_ok (hc : c.IsStrict) (h : IsExtreme c vs r)
    (hcomparable : Comparable (vs ++ [v])) :
    ∃ r', extreme s c r v = .ok r' ∧ IsExtreme c (vs ++ [v]) r' := by
  have hv : v ∈ vs ++ [v] := List.mem_append_right _ List.mem_cons_self
  cases h with
  | nothing hnothing =>
    cases habsent : v.isAbsent with
    | true =>
      exact ⟨.null, extreme_absent .null habsent, .nothing (first?_snoc_absent hnothing habsent)⟩
    | false =>
      have hfirst := first?_snoc_first hnothing habsent
      refine ⟨v, extreme_first habsent, ?_⟩
      cases hm : v.measure? with
      | some m =>
        exact .best hfirst (Option.isSome_of_eq_some hm)
          (isFirstBest_snoc hm (first?_eq_none_iff.mp hnothing))
      | none => exact .nan hfirst (hcomparable.isNaN_of_unmeasured hv habsent hm)
  | nan hfirst hnan =>
    obtain ⟨n, hn, hisNaN⟩ := hnan
    refine ⟨r, ?_, .nan (first?_snoc hfirst) ⟨n, hn, hisNaN⟩⟩
    cases habsent : v.isAbsent with
    | true => exact extreme_absent r habsent
    | false =>
      have hr : r ∈ vs ++ [v] := List.mem_append_left _ (List.mem_of_find?_eq_some hfirst)
      obtain ⟨m, hm⟩ := hcomparable.number hr hn hv habsent
      rw [extreme_better (ne_null_of_number? hn) habsent,
        better_of_compare (s.compare_nan c hm hn (.inr hisNaN))]
      rfl
  | best hfirst hmeasured hbest =>
    obtain ⟨r', hrun, hbest'⟩ := hbest.extreme_ok (s := s) hc hcomparable
    exact ⟨r', hrun, .best (first?_snoc hfirst) hmeasured hbest'⟩

/-- A run goes on from the extreme one of some values to the extreme one of these and the others. -/
theorem IsExtreme.foldlM_ok (hc : c.IsStrict) : ∀ {back front : List Value} {r : Value},
    IsExtreme c front r → Comparable (front ++ back) →
      ∃ r', back.foldlM (extreme s c) r = .ok r' ∧ IsExtreme c (front ++ back) r' := by
  intro back
  induction back with
  | nil =>
    intro front r h _
    rw [List.append_nil]
    exact ⟨r, rfl, h⟩
  | cons v back ih =>
    intro front r h hcomparable
    rw [List.append_cons] at hcomparable ⊢
    obtain ⟨r₁, hstep, h₁⟩ := h.extreme_ok (s := s) hc
      (hcomparable.mono fun w => List.mem_append_left _)
    obtain ⟨r₂, hrest, h₂⟩ := ih h₁ hcomparable
    refine ⟨r₂, ?_, h₂⟩
    rw [List.foldlM_cons, hstep]
    exact hrest

/-- Of values that can be compared the extreme one is found. -/
theorem foldlM_extreme_ok (s : Store) (hc : c.IsStrict) (h : Comparable vs) :
    ∃ r, vs.foldlM (extreme s c) .null = .ok r ∧ IsExtreme c vs r :=
  @IsExtreme.foldlM_ok s c hc vs [] .null (.nothing rfl) h

/-! ## Results -/

namespace IsExtreme

theorem eq_null_iff (h : IsExtreme c vs r) : r = .null ↔ ∀ v ∈ vs, v.isAbsent = true := by
  have hthere : ∀ {v : Value}, v ∈ vs → v.isAbsent = false →
      (v = .null ↔ ∀ w ∈ vs, w.isAbsent = true) := by
    intro v hv habsent
    refine iff_of_false ?_ fun hall => Bool.false_ne_true (habsent.symm.trans (hall v hv))
    rintro rfl
    cases habsent
  cases h with
  | nothing h => exact iff_of_true rfl (first?_eq_none_iff.mp h)
  | nan hfirst hv =>
    obtain ⟨n, hn, -⟩ := hv
    exact hthere (List.mem_of_find?_eq_some hfirst) (Value.isAbsent_of_number? hn)
  | best _ _ h =>
    obtain ⟨l, hl⟩ := h.exists_measure
    exact hthere h.mem (Value.isAbsent_of_measure? hl)

theorem eq_null_or_mem (h : IsExtreme c vs r) : r = .null ∨ r ∈ vs := by
  cases h with
  | nothing => exact .inl rfl
  | nan hfirst => exact .inr (List.mem_of_find?_eq_some hfirst)
  | best _ _ h => exact .inr h.mem

/-- No number comes in front of the result. -/
theorem compare_swap (s : Store) (hc : c.IsStrict) (h : IsExtreme c vs r)
    (hnumbers : ∀ v ∈ vs, v.isAbsent = false → ∃ n, v.number? = some n) (hv : v ∈ vs)
    (hnumber : v.IsNumber) : s.compare c.swap r v = .ok false := by
  obtain ⟨n, hn, hnan⟩ := hnumber
  cases h with
  | nothing h =>
    have habsent := first?_eq_none_iff.mp h v hv
    rw [Value.isAbsent_of_number? hn] at habsent
    cases habsent
  | nan _ hr =>
    obtain ⟨m, hm, hmnan⟩ := hr
    exact s.compare_nan _ hm hn (.inl hmnan)
  | best _ _ h =>
    obtain ⟨l, hl⟩ := h.exists_measure
    have hm := Value.measure?_number hn hnan
    obtain ⟨b, hrun, hb⟩ := s.compare_of_ordered c.swap hl hm
      ((Comparable.ordered (.inl hnumbers) h.mem hv hl hm))
    have horders : ¬ c.swap.Orders l (.inl n.exact) := by
      have hnot := h.not_orders hc hl hv hm
      rcases hc with rfl | rfl <;> exact hnot
    rw [hrun, Bool.eq_false_iff.mpr (mt hb.mp horders)]

end IsExtreme

/-- Two results agree: they are equal, or both are not-a-number. -/
def Agree (s : Store) (v w : Value) : Prop := s.equal v w = .ok true ∨ v.IsNaN ∧ w.IsNaN

/-- The best values of two lists with the same elements agree. -/
theorem IsFirstBest.agree (s : Store) (hc : c.IsStrict) (h : IsFirstBest c vs v)
    (h' : IsFirstBest c ws w) (hcomparable : Comparable vs) (hperm : vs.Perm ws) :
    Agree s v w := by
  obtain ⟨k, hk⟩ := h.exists_measure
  obtain ⟨l, hl⟩ := h'.exists_measure
  have hw : w ∈ vs := hperm.mem_iff.mpr h'.mem
  obtain ⟨b, hrun, hb⟩ := s.equal_of_measures hk hl
  have hsame : k = l := by
    rcases Comparison.orders_or hc (hcomparable.ordered h.mem hw hk hl) with
      horders | hsame | horders
    · exact absurd horders (h'.not_orders hc hl (hperm.mem_iff.mp h.mem) hk)
    · exact hsame
    · exact absurd horders (h.not_orders hc hk hw hl)
  left
  rw [hrun, hb.mpr hsame]

/-- A number and not-a-number do not agree. -/
theorem not_agree (hv : v.IsNaN) (hw : w.IsNumber) : ¬ Agree s v w ∧ ¬ Agree s w v := by
  obtain ⟨m, hm, hmnan⟩ := hv
  obtain ⟨n, hn, hnnan⟩ := hw
  have hnot : ¬ w.IsNaN := by
    rintro ⟨n', hn', hnan⟩
    obtain rfl : n = n' := Option.some.inj (hn.symm.trans hn')
    exact Bool.false_ne_true (hnnan.symm.trans hnan)
  constructor
  · rintro (h | h)
    · rw [s.equal_nan hm hn (.inl hmnan)] at h
      cases h
    · exact hnot h.2
  · rintro (h | h)
    · rw [s.equal_nan hn hm (.inr hmnan)] at h
      cases h
    · exact hnot h.1

/-- Results for lists with the same elements agree where there are not both kinds of numbers. -/
theorem IsExtreme.agree (s : Store) (hc : c.IsStrict) (h : IsExtreme c vs v)
    (h' : IsExtreme c ws w) (hperm : vs.Perm ws)
    (hnumbers : ∀ v ∈ vs, v.isAbsent = false → ∃ n, v.number? = some n)
    (hone : ¬ ((∃ v ∈ vs, v.IsNaN) ∧ ∃ v ∈ vs, v.IsNumber)) : Agree s v w := by
  have hmem : ∀ {x}, x ∈ ws → x ∈ vs := hperm.mem_iff.mpr
  by_cases hnothing : ∀ v ∈ vs, v.isAbsent = true
  · obtain rfl := h.eq_null_iff.mpr hnothing
    obtain rfl := h'.eq_null_iff.mpr fun x hx => hnothing x (hmem hx)
    exact .inl rfl
  · have hnothing' : ¬ ∀ w ∈ ws, w.isAbsent = true := fun hall =>
      hnothing fun x hx => hall x (hperm.mem_iff.mp hx)
    cases h with
    | nothing h => exact absurd (first?_eq_none_iff.mp h) hnothing
    | nan hfirst hnan =>
      cases h' with
      | nothing h' => exact absurd (first?_eq_none_iff.mp h') hnothing'
      | nan _ hnan' => exact .inr ⟨hnan, hnan'⟩
      | best _ _ h' =>
        exact absurd ⟨⟨v, List.mem_of_find?_eq_some hfirst, hnan⟩, w, hmem h'.mem,
          h'.isNumber fun x hx => hnumbers x (hmem hx)⟩ hone
    | best _ _ h =>
      cases h' with
      | nothing h' => exact absurd (first?_eq_none_iff.mp h') hnothing'
      | nan hfirst hnan =>
        exact absurd ⟨⟨w, hmem (List.mem_of_find?_eq_some hfirst), hnan⟩, v, h.mem,
          h.isNumber hnumbers⟩ hone
      | best _ _ h' => exact h.agree s hc h' (.inl hnumbers) hperm

/-! ## Main statement -/

/-- What looks for the least value and what looks for the greatest one, with the comparison that a
better value fulfils. -/
inductive Seeks : (List Value → Action Value) → Comparison → Prop where
  | min : Seeks min .less
  | max : Seeks max .greater

variable {f : List Value → Action Value}

theorem Seeks.isStrict (h : Seeks f c) : c.IsStrict := by
  cases h with
  | min => exact .inl rfl
  | max => exact .inr rfl

theorem Seeks.execute (h : Seeks f c) (vs : List Value) (s : State) :
    (f vs).execute s = (vs.foldlM (extreme s.store c) .null, s) := by
  cases h with
  | min => exact Action.execute_look _ s
  | max => exact Action.execute_look _ s

/-- Among values that can be compared the extreme one is found. -/
theorem Seeks.extreme_ok (h : Seeks f c) (hcomparable : Comparable vs) (s : State) :
    ∃ r, (f vs).execute s = (.ok r, s) ∧ IsExtreme c vs r := by
  obtain ⟨r, hfold, hextreme⟩ := foldlM_extreme_ok s.store h.isStrict hcomparable
  exact ⟨r, by rw [h.execute, hfold], hextreme⟩

theorem first?_of_number {n : Number} (hn : v.number? = some n) (vs : List Value) :
    first? (v :: vs) = some v := by
  simp [first?, Value.isAbsent_of_number? hn]

/-- Not-a-number that comes first decides. -/
theorem IsExtreme.isNaN_of_first (h : IsExtreme c (v :: vs) r) (hv : v.IsNaN) : r.IsNaN := by
  obtain ⟨n, hn, hnan⟩ := hv
  have hfirst := first?_of_number hn vs
  cases h with
  | nothing hnone => cases hfirst.symm.trans hnone
  | nan _ hr => exact hr
  | best hsome hmeasured =>
    cases hfirst.symm.trans hsome
    rw [measure?_of_isNaN hn hnan] at hmeasured
    cases hmeasured

/-- So does a number that comes first. -/
theorem IsExtreme.isNumber_of_first (h : IsExtreme c (v :: vs) r) (hv : v.IsNumber)
    (hnumbers : ∀ w ∈ v :: vs, w.isAbsent = false → ∃ n, w.number? = some n) : r.IsNumber := by
  obtain ⟨n, hn, hnumber⟩ := hv
  have hfirst := first?_of_number hn vs
  cases h with
  | nothing hnone => cases hfirst.symm.trans hnone
  | nan hsome hnan =>
    cases hfirst.symm.trans hsome
    obtain ⟨k, hk, hknan⟩ := hnan
    cases hn.symm.trans hk
    exact absurd (hnumber.symm.trans hknan) Bool.false_ne_true
  | best _ _ hbest => exact hbest.isNumber hnumbers

theorem exists_perm_cons (hv : v ∈ vs) : ∃ rest, vs.Perm (v :: rest) := by
  obtain ⟨front, back, rfl⟩ := List.append_of_mem hv
  exact ⟨front ++ back, List.perm_middle⟩

/-- With a number and not-a-number among the values, the one of them that comes first decides. -/
theorem Seeks.exists_disagreement (h : Seeks f c)
    (hnumbers : ∀ v ∈ vs, v.isAbsent = false → ∃ n, v.number? = some n) (hv : v ∈ vs)
    (hnan : v.IsNaN) (hw : w ∈ vs) (hnumber : w.IsNumber) (s : State) :
    ∃ nanFirst numberFirst r r', vs.Perm nanFirst ∧ vs.Perm numberFirst ∧
      (f nanFirst).execute s = (.ok r, s) ∧ (f numberFirst).execute s = (.ok r', s) ∧ r.IsNaN ∧
      r'.IsNumber := by
  obtain ⟨rest, hperm⟩ := exists_perm_cons hv
  obtain ⟨rest', hperm'⟩ := exists_perm_cons hw
  have hthere : ∀ x ∈ v :: rest, x.isAbsent = false → ∃ n, x.number? = some n := fun x hx =>
    hnumbers x (hperm.mem_iff.mpr hx)
  have hthere' : ∀ x ∈ w :: rest', x.isAbsent = false → ∃ n, x.number? = some n := fun x hx =>
    hnumbers x (hperm'.mem_iff.mpr hx)
  obtain ⟨r, hr, hextreme⟩ := h.extreme_ok (.inl hthere) s
  obtain ⟨r', hr', hextreme'⟩ := h.extreme_ok (.inl hthere') s
  exact ⟨_, _, r, r', hperm, hperm', hr, hr', hextreme.isNaN_of_first hnan,
    hextreme'.isNumber_of_first hnumber hthere'⟩

/-- Of numbers and absent values a least one and a greatest one is found: null exactly when nothing
is there, otherwise one of the values, in front of which no number comes.  Another order of the
values gives a result that agrees, for all orders exactly when there are not both not-a-number and
other numbers among the values. -/
theorem extremes_agree_iff (hf : Seeks f c)
    (hnumbers : ∀ v ∈ vs, v.isAbsent = false → ∃ n, v.number? = some n) (s : State) :
    (∃ r, (f vs).execute s = (.ok r, s) ∧ (r = .null ↔ ∀ v ∈ vs, v.isAbsent = true) ∧
      (r = .null ∨ r ∈ vs) ∧
      ∀ v ∈ vs, v.IsNumber → s.store.compare c.swap r v = .ok false) ∧
    ((∀ ws, vs.Perm ws → ∃ r r', (f vs).execute s = (.ok r, s) ∧
        (f ws).execute s = (.ok r', s) ∧ Agree s.store r r') ↔
      ¬ ((∃ v ∈ vs, v.IsNaN) ∧ ∃ v ∈ vs, v.IsNumber)) := by
  obtain ⟨r, hr, hextreme⟩ := hf.extreme_ok (.inl hnumbers) s
  refine ⟨⟨r, hr, hextreme.eq_null_iff, hextreme.eq_null_or_mem, fun v hv =>
    hextreme.compare_swap s.store hf.isStrict hnumbers hv⟩, fun hagree => ?_,
    fun hone ws hperm => ?_⟩
  · rintro ⟨⟨v, hv, hnan⟩, w, hw, hnumber⟩
    obtain ⟨vs₁, vs₂, x₁, x₂, hperm₁, hperm₂, hrun₁, hrun₂, hx₁, hx₂⟩ :=
      hf.exists_disagreement hnumbers hv hnan hw hnumber s
    obtain ⟨y, y₁, hy, hy₁, hagree₁⟩ := hagree vs₁ hperm₁
    obtain ⟨y', y₂, hy', hy₂, hagree₂⟩ := hagree vs₂ hperm₂
    cases hy.symm.trans hy'
    cases hrun₁.symm.trans hy₁
    cases hrun₂.symm.trans hy₂
    cases hr.symm.trans hy
    cases hextreme with
    | nothing hnone =>
      obtain ⟨n, hn, -⟩ := hnumber
      exact Bool.false_ne_true
        ((Value.isAbsent_of_number? hn).symm.trans (first?_eq_none_iff.mp hnone w hw))
    | nan _ hr => exact (not_agree hr hx₂).1 hagree₂
    | best _ _ hbest => exact (not_agree hx₁ (hbest.isNumber hnumbers)).2 hagree₁
  · obtain ⟨r', hr', hextreme'⟩ :=
      hf.extreme_ok (.inl fun v hv => hnumbers v (hperm.mem_iff.mpr hv)) s
    exact ⟨r, r', hr, hr', hextreme.agree s.store hf.isStrict hextreme' hperm hnumbers hone⟩

/-- Of three and one the least value is one, in any order; of not-a-number and one it depends on the
order. -/
theorem extremes_threeAndOne :
    (∃ r, (min [.int 3, .null, .int 1]).execute {} = (.ok r, {}) ∧
      (r = .null ∨ r ∈ [.int 3, .null, .int 1])) ∧
    (∃ r r', (min [.int 3, .null, .int 1]).execute {} = (.ok r, {}) ∧
      (min [.int 1, .null, .int 3]).execute {} = (.ok r', {}) ∧ Agree {} r r') ∧
    ¬ ∀ ws, [.nan 0, .int 1].Perm ws → ∃ r r', (min [.nan 0, .int 1]).execute {} = (.ok r, {}) ∧
      (min ws).execute {} = (.ok r', {}) ∧ Agree {} r r' := by
  have hnumber : ∀ n, (Value.int n).IsNumber := fun n => ⟨_, rfl, rfl⟩
  have hnan : (Value.nan 0).IsNaN := ⟨_, rfl, by decide +kernel⟩
  obtain ⟨⟨r, hr, -, hmem, -⟩, hagree⟩ := @extremes_agree_iff .less [.int 3, .null, .int 1] min
    .min (by simp [Value.isAbsent, Value.number?]) {}
  have hnone : ¬ ∃ v ∈ [Value.int 3, .null, .int 1], v.IsNaN := by
    simp [Value.IsNaN, Value.number?, Number.isNaN]
  refine ⟨⟨r, hr, hmem⟩, hagree.mpr (fun h => hnone h.1) _ (List.reverse_perm _).symm, ?_⟩
  refine fun hall => (@extremes_agree_iff .less [.nan 0, .int 1] min .min
    (by simp [Value.isAbsent, Value.number?]) {}).2.mp hall ?_
  exact ⟨⟨_, List.mem_cons_self, hnan⟩, _, List.mem_cons_of_mem _ List.mem_cons_self, hnumber 1⟩

/-- Of not-a-number and one, the least value is the one that comes first. -/
theorem min_nanAndOne :
    ∃ r r', (min [.nan 0, .int 1]).execute {} = (.ok r, {}) ∧
      (min [.int 1, .nan 0]).execute {} = (.ok r', {}) ∧ ¬ Agree {} r r' := by
  have hnan : (Value.nan 0).IsNaN := ⟨_, rfl, by decide +kernel⟩
  refine ⟨.nan 0, .int 1, rfl, rfl, (not_agree hnan ⟨_, rfl, rfl⟩).1⟩

end Recordset.Aggregate
