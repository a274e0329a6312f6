import Recordset.Ini.Reader
import Recordset.Policy.Config
import Recordset.Proofs.Action
import Recordset.Proofs.Order
set_option autoImplicit false

/-!
# Policies of configurations

A configuration gives a policy, or is refused.  The policy has a page size of at least one, is what
each option says, and has the default for an option that is absent (`Policy.Follows`).  One kind of
failure escapes: an option that names others that can not be put in, or has a percent sign that
names nothing, fails as the text of a configuration does, and that failure is handed on
(`Policy.ofDocument_settles_iff`).  Options without a percent sign never fail in this way
(`Policy.not_escapes_of_plain`).
-/

namespace Recordset

/-! ## Numbers that are read can be written -/

namespace Text

theorem decimalValue?_lt {c : Char} {n : Nat} (h : decimalValue? c = some n) : n < 10 := by
  unfold decimalValue? at h
  split at h
  · split at h
    · cases h
      omega
    · cases h
  · obtain ⟨start, hfound, rfl⟩ := Option.map_eq_some_iff.mp h
    have hnear := List.find?_some hfound
    simp only [decide_eq_true_eq] at hnear
    omega

/-- The digits at the front of a text are what its characters denote. -/
theorem digit_of_spanDigits {digit? : Char → Option Nat} {cs rest : List Char} {pending : Bool}
    {ds : List Nat} (h : spanDigits digit? pending cs = some (ds, rest)) :
    ∀ d ∈ ds, ∃ c, digit? c = some d := by
  induction cs generalizing pending ds with
  | nil =>
    cases pending with
    | true => cases h
    | false =>
      cases h
      exact fun d hd => nomatch hd
  | cons c cs ih =>
    rw [spanDigits] at h
    cases hc : digit? c with
    | some d =>
      simp only [hc] at h
      obtain ⟨⟨es, more⟩, hmore, heq⟩ := Option.map_eq_some_iff.mp h
      cases heq
      intro e he
      rcases List.mem_cons.mp he with rfl | he
      · exact ⟨c, hc⟩
      · exact ih hmore e he
    | none =>
      simp only [hc] at h
      split at h
      · cases h
      · split at h
        · exact ih h
        · cases h
          exact fun d hd => nomatch hd

/-- A digit more makes the number less than ten times the bound. -/
theorem foldl_digits_lt {ds : List Nat} (h : ∀ d ∈ ds, d < 10) (n : Nat) :
    ds.foldl (fun n d => 10 * n + d) n < (n + 1) * 10 ^ ds.length := by
  induction ds generalizing n with
  | nil => simp
  | cons d ds ih =>
    have hd : d < 10 := h d (List.mem_cons_self ..)
    calc (d :: ds).foldl (fun n d => 10 * n + d) n
        < (10 * n + d + 1) * 10 ^ ds.length := ih (fun e he => h e (List.mem_cons_of_mem _ he)) _
      _ ≤ (10 * (n + 1)) * 10 ^ ds.length := Nat.mul_le_mul_right _ (by omega)
      _ = (n + 1) * 10 ^ (d :: ds).length := by
        rw [List.length_cons, Nat.pow_succ, Nat.mul_comm 10, Nat.mul_assoc, Nat.mul_comm 10]

theorem ofDigits_lt {ds : List Nat} (h : ∀ d ∈ ds, d < 10) : ofDigits ds < 10 ^ ds.length := by
  simpa [ofDigits] using foldl_digits_lt h 0

/-- A number that is read has no more digits than are read. -/
theorem readDigits_lt {cs : List Char} {n : Nat} (h : readDigits decimalValue? cs = .ok n) :
    n < 10 ^ digitLimit := by
  unfold readDigits at h
  split at h
  · cases h
  · rename_i ds rest hspan
    split at h
    · cases h
    · rename_i hlength
      split at h
      · cases h
        have hdigits : ∀ d ∈ ds, d < 10 := fun d hd =>
          have ⟨_, hc⟩ := digit_of_spanDigits hspan d hd
          decimalValue?_lt hc
        exact Nat.lt_of_lt_of_le (ofDigits_lt hdigits)
          (Nat.pow_le_pow_right (by decide) (Nat.not_lt.mp hlength))
      · cases h

theorem readSigned_natAbs_lt {cs : List Char} {n : Int}
    (h : readSigned decimalValue? cs = .ok n) : n.natAbs < 10 ^ digitLimit := by
  have hbound (rest : List Char) : (∃ e, readDigits decimalValue? rest = .error e) ∨
      ∃ m, readDigits decimalValue? rest = .ok m ∧ m < 10 ^ digitLimit := by
    cases hdigits : readDigits decimalValue? rest with
    | error e => exact .inl ⟨e, rfl⟩
    | ok m => exact .inr ⟨m, rfl, readDigits_lt hdigits⟩
  unfold readSigned at h
  split at h
  case h_1 rest | h_2 rest =>
    obtain ⟨e, hdigits⟩ | ⟨m, hdigits, hlt⟩ := hbound rest
    · rw [hdigits] at h
      cases h
    · rw [hdigits] at h
      cases h
      simpa using hlt
  case h_3 =>
    obtain ⟨e, hdigits⟩ | ⟨m, hdigits, hlt⟩ := hbound cs
    · rw [hdigits] at h
      cases h
    · rw [hdigits] at h
      cases h
      simpa using hlt

/-- A number that is read can be written. -/
theorem writeInteger?_of_readInteger {t : String} {n : Int} (h : readInteger t = .ok n) :
    writeInteger? n = some (toString n) := by
  rw [writeInteger?, Nat.pow_eq, if_pos (readSigned_natAbs_lt h)]

end Text

/-! ## Texts without a percent sign -/

namespace Ini

/-- A text without a percent sign stands for itself. -/
theorem expandWith_of_plain (find? : String → Option String)
    (inner : String → Except IniFault String) {cs : List Char} (h : '%' ∉ cs) {fuel : Nat}
    (hfuel : cs.length < fuel) : expandWith find? inner fuel cs = .ok (String.ofList cs) := by
  induction cs generalizing fuel with
  | nil =>
    obtain ⟨fuel, rfl⟩ := Nat.exists_eq_succ_of_ne_zero (Nat.ne_of_gt hfuel)
    rfl
  | cons c cs ih =>
    obtain ⟨fuel, rfl⟩ := Nat.exists_eq_succ_of_ne_zero (Nat.ne_of_gt (Nat.zero_lt_of_lt hfuel))
    have hc : c ≠ '%' := fun hc => h (hc ▸ List.mem_cons_self ..)
    have hrest := ih (fun hmem => h (List.mem_cons_of_mem _ hmem)) (Nat.lt_of_succ_lt_succ hfuel)
    rw [expandWith]
    · rw [hrest]
      simp [String.ofList_cons]
    · exact fun _ hc' => (hc hc').elim
    · exact fun _ hc' => (hc hc').elim
    · exact hc

theorem Document.get?_of_plain {d : Document} {name option : String}
    (h : ∀ t, d.raw? name option = some t → '%' ∉ t.toList) :
    d.get? name option = .ok (d.raw? name option) := by
  unfold get?
  cases hraw : d.raw? name option with
  | none => rfl
  | some t =>
    show (expand _ (9 + 1) t).map some = _
    have hfuel : t.toList.length < t.length + 1 :=
      Nat.lt_succ_of_le (Nat.le_of_eq String.length_toList)
    rw [expand, expandWith_of_plain _ _ (h t hraw) hfuel, String.ofList_toList]
    rfl

/-- An option that is absent reads as absent. -/
theorem Document.get?_of_absent {d : Document} {name option : String}
    (h : d.raw? name option = none) : d.get? name option = .ok none := by
  unfold get?
  rw [h]

end Ini

namespace Policy

open Recordset.Action

/-! ## Reading the options -/

/-- What is written as the seed; an empty text is no seed. -/
def seedOf : Option String → Except Error Value
  | none | some "" => .ok ({} : Policy).seed
  | some t => integerOption t

/-- What is written as the page size. -/
def perPageOf : Option String → Except Error Value
  | none => .ok ({} : Policy).perPage
  | some t => integerOption t

/-- What is written as the separator. -/
def separatorOf : Option String → Value
  | none => ({} : Policy).separator
  | some t => .str t

/-- What is written as the direction. -/
def directionOf : Option String → String
  | none => ({} : Policy).direction.text
  | some t => Text.lower (Text.trim t)

/-- Making a policy of the values that are written for its options, in the order in which they are
read. -/
def ofOptions (d : Ini.Document) : Action Policy := do
  let seed ← Action.ofExcept (option d "random_seed")
  let perPage ← Action.ofExcept (perPageOf (← Action.ofExcept (option d "per_page")))
  let separator ← Action.ofExcept (option d "separator")
  let direction ← Action.ofExcept (option d "sort_direction")
  let seed ← Action.ofExcept (seedOf seed)
  make perPage (separatorOf separator) (.str (directionOf direction)) seed

section

variable (o : Option String) (k : Value → Action Policy)

theorem bind_seedOf : (match o with
      | none | some "" => do k (← pure Value.null)
      | some t => do k (← Action.ofExcept (integerOption t))) =
    Action.ofExcept (seedOf o) >>= k := by
  unfold seedOf
  split <;> rfl

theorem bind_perPageOf : (match o with
      | some t => do k (← Action.ofExcept (integerOption t))
      | none => do k (← pure ({} : Policy).perPage)) =
    Action.ofExcept (perPageOf o) >>= k := by
  cases o <;> rfl

theorem bind_separatorOf : (match o with
      | some t => do k (← pure (.str t))
      | none => do k (← pure ({} : Policy).separator)) = k (separatorOf o) := by
  cases o <;> rfl

theorem bind_directionOf (k : String → Action Policy) : (match o with
      | some t => do k (← pure (Text.lower (Text.trim t)))
      | none => do k (← pure ({} : Policy).direction.text)) = k (directionOf o) := by
  cases o <;> rfl

end

theorem execute_of_section {d : Ini.Document} (h : d.hasSection sectionName = true) (s : State) :
    (ofDocument d).execute s = (ofOptions d).execute s := by
  simp only [ofDocument, h, Bool.not_true, Bool.false_eq_true, if_false]
  refine execute_bind_congr fun seed s _ => execute_bind_congr fun perPage s _ => ?_
  refine (congrArg (execute · s) (bind_perPageOf perPage _)).trans ?_
  refine execute_bind_congr fun perPage s _ => execute_bind_congr fun separator s _ => ?_
  refine (congrArg (execute · s) (bind_separatorOf separator _)).trans ?_
  refine execute_bind_congr fun direction s _ => ?_
  refine (congrArg (execute · s) (bind_directionOf direction _)).trans ?_
  exact congrArg (execute · s) (bind_seedOf seed _)

/-! ## Making the policy -/

theorem compare_less_int (s : Store) (m n : Int) :
    s.compare .less (.int m) (.int n) = .ok (decide (m < n)) := by
  rw [s.compare_number .less rfl rfl]
  have hholds := Comparison.holds_compare .less m n
  refine congrArg Except.ok (Bool.eq_iff_iff.mpr (hholds.trans ?_))
  exact (@decide_eq_true_iff (m < n) _).symm

/-- A whole number is written in its digits. -/
theorem text_int (s : Store) {n : Int} {t : String} (h : Text.writeInteger? n = some t) :
    s.text (.int n) = .ok t := by
  have hshown : s.text (.int n) = Store.wholeShown n := by
    unfold Store.text
    rw [Store.shown, Store.depth, Store.shownAt]
    rfl
  rw [hshown]
  unfold Store.wholeShown
  rw [h]

theorem ofText?_eq_some {t : String} {d : Direction} (h : Direction.ofText? t = some d) :
    d.text = t := by
  unfold Direction.ofText? at h
  split at h
  · cases h
    exact (‹t = "asc"›).symm
  · split at h
    · cases h
      exact (‹t = "desc"›).symm
    · cases h

/-- Only a page size of less than one and a text that is no direction are refused. -/
theorem execute_make {n : Int} {t : String} (hn : Text.writeInteger? n = some t)
    (separator seed : Value) (direction : String) (s : State) :
    (∃ e, (make (.int n) separator (.str direction) seed).execute s = (.error (.refusal e), s) ∧
        e.family = .validation) ∨
      ∃ d : Direction, 1 ≤ n ∧ d.text = direction ∧
        (make (.int n) separator (.str direction) seed).execute s =
          (.ok { perPage := .int n, separator, direction := d, seed }, s) := by
  unfold make
  have hless : (look (Store.compare · .less (.int n) (.int 1))).execute s =
      (.ok (decide (n < 1)), s) := by
    rw [execute_look, compare_less_int]
  rw [execute_bind_of_ok hless]
  by_cases hsmall : n < 1
  · left
    have htext : (look (Store.text · (.int n))).execute s = (.ok t, s) := by
      rw [execute_look, text_int _ hn]
    rw [if_pos (decide_eq_true hsmall), execute_bind_of_ok htext]
    exact ⟨_, rfl, rfl⟩
  · have hdirection : (look (directionNamed? · (.str direction))).execute s =
        (.ok (Direction.ofText? direction), s) := rfl
    rw [if_neg (by simpa using hsmall), execute_bind_of_ok hdirection]
    cases hd : Direction.ofText? direction with
    | some d => exact .inr ⟨d, Int.not_lt.mp hsmall, ofText?_eq_some hd, rfl⟩
    | none => exact .inl ⟨_, rfl, rfl⟩

/-- The value of an option can not be read: it names another that can not be put in, or has a
percent sign that names none. -/
def Unreadable (d : Ini.Document) (name : String) : Prop :=
  ∃ f, d.get? sectionName name = .error f

theorem not_unreadable {d : Ini.Document} {name : String} {o : Option String}
    (h : d.get? sectionName name = .ok o) : ¬ Unreadable d name := by
  rintro ⟨f, hf⟩
  rw [h] at hf
  cases hf

/-- A configuration of which an option is unreadable that is read before anything is refused. -/
def Escapes (d : Ini.Document) : Prop :=
  d.hasSection sectionName = true ∧
    (Unreadable d "random_seed" ∨ Unreadable d "per_page" ∨
      (∀ t, d.get? sectionName "per_page" = .ok (some t) → ∃ n, Text.readInteger t = .ok n) ∧
        (Unreadable d "separator" ∨ Unreadable d "sort_direction"))

/-- What an option says: something is so when it is absent, and something of the text that it
holds. -/
def Says (d : Ini.Document) (name : String) (absent : Prop) (holding : String → Prop) : Prop :=
  (d.raw? sectionName name = none → absent) ∧
    ∀ t, d.get? sectionName name = .ok (some t) → holding t

/-- A policy is valid and what a configuration says, with the defaults for what it does not say. -/
structure Follows (p : Policy) (d : Ini.Document) : Prop where
  positive : ∃ n : Int, 1 ≤ n ∧ p.perPage = .int n
  directed : p.direction.text = "asc" ∨ p.direction.text = "desc"
  default : d.hasSection sectionName = false → p = {}
  perPage : d.hasSection sectionName = true → Says d "per_page" (p.perPage = ({} : Policy).perPage)
    fun t => ∃ n, Text.readInteger t = .ok n ∧ p.perPage = .int n
  separator : d.hasSection sectionName = true →
    Says d "separator" (p.separator = ({} : Policy).separator) fun t => p.separator = .str t
  direction : d.hasSection sectionName = true →
    Says d "sort_direction" (p.direction = ({} : Policy).direction)
      fun t => p.direction.text = Text.lower (Text.trim t)
  seed : d.hasSection sectionName = true → Says d "random_seed" (p.seed = ({} : Policy).seed)
    fun t => t ≠ "" → ∃ n, Text.readInteger t = .ok n ∧ p.seed = .int n

theorem text_direction (d : Direction) : d.text = "asc" ∨ d.text = "desc" := by
  cases d with
  | asc => exact .inl rfl
  | desc => exact .inr rfl

/-- Without a section the policy is the default. -/
theorem follows_default {d : Ini.Document} (h : d.hasSection sectionName = false) :
    Follows {} d where
  positive := ⟨20, by decide, rfl⟩
  directed := text_direction _
  default _ := rfl
  perPage hsection := by simp [h] at hsection
  separator hsection := by simp [h] at hsection
  direction hsection := by simp [h] at hsection
  seed hsection := by simp [h] at hsection

section

variable {d : Ini.Document} {name : String} {o : Option String}

theorem execute_option (h : d.get? sectionName name = .ok o) (s : State) :
    (Action.ofExcept (option d name)).execute s = (.ok o, s) := by
  rw [execute_ofExcept, option, h]
  rfl

theorem execute_option_of_error {f : IniFault} (h : d.get? sectionName name = .error f)
    (s : State) : (Action.ofExcept (option d name)).execute s = (.error (.ini f), s) := by
  rw [execute_ofExcept, option, h]
  rfl

/-- An option that is read says what it holds. -/
theorem says_of_get? {absent : Prop} {holding : String → Prop} (h : d.get? sectionName name = .ok o)
    (habsent : o = none → absent) (hholding : ∀ t, o = some t → holding t) :
    Says d name absent holding := by
  constructor
  · intro hraw
    rw [Ini.Document.get?_of_absent hraw] at h
    exact habsent (Except.ok.inj h).symm
  · intro t ht
    rw [ht] at h
    exact hholding t (Except.ok.inj h).symm

end

/-- What is written as a number is one, or is refused. -/
theorem integerOption_cases (t : String) :
    (∃ e, integerOption t = .error (.refusal e) ∧ e.family = .validation ∧
        ¬ ∃ n, Text.readInteger t = .ok n) ∨
      ∃ n, integerOption t = .ok (.int n) ∧ Text.readInteger t = .ok n := by
  unfold integerOption
  cases h : Text.readInteger t with
  | ok n => exact .inr ⟨n, rfl, rfl⟩
  | error e => exact .inl ⟨_, rfl, rfl, by simp⟩

theorem perPageOf_cases (o : Option String) :
    (∃ e, perPageOf o = .error (.refusal e) ∧ e.family = .validation ∧
        ∃ t, o = some t ∧ ¬ ∃ n, Text.readInteger t = .ok n) ∨
      ∃ n u, perPageOf o = .ok (.int n) ∧ Text.writeInteger? n = some u ∧
        (o = none → .int n = ({} : Policy).perPage) ∧
        ∀ t, o = some t → Text.readInteger t = .ok n := by
  cases o with
  | none => exact .inr ⟨20, "20", rfl, by decide +kernel, fun _ => rfl, fun _ ht => nomatch ht⟩
  | some t =>
    obtain ⟨e, he, hfamily, hno⟩ | ⟨n, hn, hread⟩ := integerOption_cases t
    · exact .inl ⟨e, he, hfamily, t, rfl, hno⟩
    · refine .inr ⟨n, toString n, hn, Text.writeInteger?_of_readInteger hread,
        fun ho => (nomatch ho), fun u hu => ?_⟩
      cases hu
      exact hread

theorem seedOf_cases (o : Option String) :
    (∃ e, seedOf o = .error (.refusal e) ∧ e.family = .validation) ∨
      ∃ v, seedOf o = .ok v ∧ (o = none → v = ({} : Policy).seed) ∧
        ∀ t, o = some t → t ≠ "" → ∃ n, Text.readInteger t = .ok n ∧ v = .int n := by
  unfold seedOf
  split
  · exact .inr ⟨_, rfl, fun _ => rfl, fun _ ht => nomatch ht⟩
  · exact .inr ⟨_, rfl, fun _ => rfl, fun t ht hne => absurd (Option.some.inj ht).symm hne⟩
  · rename_i t _
    obtain ⟨e, he, hfamily, _⟩ | ⟨n, hn, hread⟩ := integerOption_cases t
    · exact .inl ⟨e, he, hfamily⟩
    · refine .inr ⟨.int n, hn, fun ho => (nomatch ho), fun u hu _ => ?_⟩
      cases hu
      exact ⟨n, hread, rfl⟩

/-- A configuration gives a policy that follows it, or is refused. -/
def Settles (d : Ini.Document) (s : State) : Prop :=
  (∃ p, (ofDocument d).execute s = (.ok p, s) ∧ p.Follows d) ∨
    ∃ e, (ofDocument d).execute s = (.error (.refusal e), s) ∧ e.family = .validation

/-- With a section that can be read, the values that are there make a policy or are refused. -/
theorem settles_of_readable {d : Ini.Document} {seed perPage separator direction : Option String}
    (hsection : d.hasSection sectionName = true) (s : State)
    (hseed : d.get? sectionName "random_seed" = .ok seed)
    (hperPage : d.get? sectionName "per_page" = .ok perPage)
    (hseparator : d.get? sectionName "separator" = .ok separator)
    (hdirection : d.get? sectionName "sort_direction" = .ok direction) : Settles d s := by
  unfold Settles
  rw [execute_of_section hsection, ofOptions, execute_bind_of_ok (execute_option hseed s),
    execute_bind_of_ok (execute_option hperPage s)]
  obtain ⟨e, he, hfamily, _⟩ | ⟨n, u, hn, hwritten, hnone, hsome⟩ := perPageOf_cases perPage
  · rw [execute_bind_of_error ((execute_ofExcept _ s).trans (by rw [he]))]
    exact .inr ⟨e, rfl, hfamily⟩
  rw [execute_bind_of_ok ((execute_ofExcept _ s).trans (by rw [hn])),
    execute_bind_of_ok (execute_option hseparator s),
    execute_bind_of_ok (execute_option hdirection s)]
  obtain ⟨e, he, hfamily⟩ | ⟨v, hv, hseedNone, hseedSome⟩ := seedOf_cases seed
  · rw [execute_bind_of_error ((execute_ofExcept _ s).trans (by rw [he]))]
    exact .inr ⟨e, rfl, hfamily⟩
  rw [execute_bind_of_ok ((execute_ofExcept _ s).trans (by rw [hv]))]
  obtain ⟨e, he, hfamily⟩ | ⟨way, hpositive, hway, hmade⟩ :=
    execute_make hwritten (separatorOf separator) v (directionOf direction) s
  · exact .inr ⟨e, he, hfamily⟩
  refine .inl ⟨_, hmade, ⟨n, hpositive, rfl⟩, text_direction way, fun habsent => ?_, fun _ => ?_,
    fun _ => ?_, fun _ => ?_, fun _ => ?_⟩
  · rw [hsection] at habsent
    cases habsent
  · exact says_of_get? hperPage hnone fun t ht => ⟨n, hsome t ht, rfl⟩
  · refine says_of_get? hseparator (fun hnone => ?_) fun t ht => ?_
    · rw [hnone, separatorOf]
    · rw [ht, separatorOf]
  · refine says_of_get? hdirection (fun hnone => ?_) fun t ht => ?_
    · rw [hnone, directionOf] at hway
      cases way with
      | asc => rfl
      | desc => simp [Direction.text] at hway
    · rw [hway, ht, directionOf]
  · exact says_of_get? hseed hseedNone hseedSome

/-- A configuration settles without escaping, or its own failure is handed on. -/
theorem settles_or_escapes (d : Ini.Document) (s : State) :
    (Settles d s ∧ ¬ Escapes d) ∨
      Escapes d ∧ ∃ f, (ofDocument d).execute s = (.error (.ini f), s) := by
  cases hsection : d.hasSection sectionName with
  | false =>
    refine .inl ⟨.inl ⟨{}, ?_, follows_default hsection⟩, fun h => ?_⟩
    · unfold ofDocument
      rw [hsection]
      rfl
    · rw [Escapes, hsection] at h
      cases h.1
  | true =>
    rw [execute_of_section hsection, ofOptions]
    cases hseed : d.get? sectionName "random_seed" with
    | error f =>
      rw [execute_bind_of_error (execute_option_of_error hseed s)]
      exact .inr ⟨⟨hsection, .inl ⟨f, hseed⟩⟩, f, rfl⟩
    | ok seed =>
    rw [execute_bind_of_ok (execute_option hseed s)]
    cases hperPage : d.get? sectionName "per_page" with
    | error f =>
      rw [execute_bind_of_error (execute_option_of_error hperPage s)]
      exact .inr ⟨⟨hsection, .inr (.inl ⟨f, hperPage⟩)⟩, f, rfl⟩
    | ok perPage =>
    rw [execute_bind_of_ok (execute_option hperPage s)]
    obtain ⟨e, he, hfamily, t, ht, hno⟩ | ⟨n, u, hn, _, _, hsome⟩ := perPageOf_cases perPage
    · refine .inl ⟨.inr ⟨e, ?_, hfamily⟩, fun ⟨_, h⟩ => ?_⟩
      · rw [execute_of_section hsection, ofOptions, execute_bind_of_ok (execute_option hseed s),
          execute_bind_of_ok (execute_option hperPage s),
          execute_bind_of_error ((execute_ofExcept _ s).trans (by rw [he]))]
      · obtain h | h | ⟨h, -⟩ := h
        · exact not_unreadable hseed h
        · exact not_unreadable hperPage h
        · exact hno (h t (by rw [hperPage, ht]))
    have hwhole (t : String) (ht : d.get? sectionName "per_page" = .ok (some t)) :
        ∃ n, Text.readInteger t = .ok n := by
      rw [hperPage] at ht
      exact ⟨n, hsome t (Except.ok.inj ht)⟩
    rw [execute_bind_of_ok ((execute_ofExcept _ s).trans (by rw [hn]))]
    cases hseparator : d.get? sectionName "separator" with
    | error f =>
      rw [execute_bind_of_error (execute_option_of_error hseparator s)]
      exact .inr ⟨⟨hsection, .inr (.inr ⟨hwhole, .inl ⟨f, hseparator⟩⟩)⟩, f, rfl⟩
    | ok separator =>
    rw [execute_bind_of_ok (execute_option hseparator s)]
    cases hdirection : d.get? sectionName "sort_direction" with
    | error f =>
      rw [execute_bind_of_error (execute_option_of_error hdirection s)]
      exact .inr ⟨⟨hsection, .inr (.inr ⟨hwhole, .inr ⟨f, hdirection⟩⟩)⟩, f, rfl⟩
    | ok direction =>
    refine .inl ⟨settles_of_readable hsection s hseed hperPage hseparator hdirection,
      fun ⟨_, h⟩ => ?_⟩
    obtain h | h | ⟨-, h | h⟩ := h
    · exact not_unreadable hseed h
    · exact not_unreadable hperPage h
    · exact not_unreadable hseparator h
    · exact not_unreadable hdirection h

/-- Options that hold no percent sign are readable. -/
theorem not_escapes_of_plain {d : Ini.Document}
    (h : ∀ name t, d.raw? sectionName name = some t → '%' ∉ t.toList) : ¬ Escapes d := by
  have hreadable (name : String) : ¬ Unreadable d name :=
    not_unreadable (Ini.Document.get?_of_plain (h name))
  rintro ⟨_, hseed | hperPage | ⟨-, hseparator | hdirection⟩⟩
  · exact hreadable _ hseed
  · exact hreadable _ hperPage
  · exact hreadable _ hseparator
  · exact hreadable _ hdirection

/-- A configuration settles exactly when it does not escape; where it escapes, the failure of its
text is handed on. -/
theorem ofDocument_settles_iff (d : Ini.Document) (s : State) :
    (Settles d s ↔ ¬ Escapes d) ∧
      (Escapes d → ∃ f, (ofDocument d).execute s = (.error (.ini f), s)) := by
  obtain ⟨hsettles, hescapes⟩ | ⟨hescapes, f, hf⟩ := settles_or_escapes d s
  · exact ⟨iff_of_true hsettles hescapes, fun h => absurd h hescapes⟩
  · refine ⟨iff_of_false (fun hsettles => ?_) (not_not_intro hescapes), fun _ => ⟨f, hf⟩⟩
    obtain ⟨p, hp, -⟩ | ⟨e, he, -⟩ := hsettles
    · rw [hf] at hp
      cases hp
    · rw [hf] at he
      cases he

/-- A page size of ten percent, as a text and as it is read. -/
def tenPercentText : String := "[collection]\nper_page = 10%\n"

@[inherit_doc tenPercentText]
def tenPercent : Ini.Document :=
  ⟨[(Ini.defaultSection, []), (sectionName, [("per_page", "10%")])]⟩

/-- Ten percent is no page size, but the configuration is not refused: the percent sign names
nothing, and that failure is handed on. -/
theorem ofDocument_tenPercent : Ini.read tenPercentText = .ok tenPercent ∧
    (ofDocument tenPercent).execute {} = (.error (.ini .interpolationSyntax), {}) ∧
    ¬ Settles tenPercent {} := by
  have hfails : (ofDocument tenPercent).execute {} = (.error (.ini .interpolationSyntax), {}) :=
    rfl
  refine ⟨rfl, hfails, fun hsettles => ?_⟩
  obtain ⟨p, hp, -⟩ | ⟨e, he, -⟩ := hsettles
  · rw [hfails] at hp
    cases hp
  · rw [hfails] at he
    cases he

end Policy
end Recordset
