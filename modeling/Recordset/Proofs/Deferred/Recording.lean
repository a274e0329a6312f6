import Mathlib.Data.List.DropRight
import Mathlib.Tactic.SplitIfs
import Recordset.Deferred.Builder
import Recordset.Proofs.Action
set_option autoImplicit false

/-!
# Recorded arguments

A builder records the arguments of a call with those at the end left out that the caller left out,
and with null for every other one that the caller left out.  The recorded arguments stand for the
same call as the given ones when every parameter that is left out before one that is given has null
for its default (`bind_trim`).  Of the methods that a builder records only `paginate` has a
parameter with another default, so that only one call is recorded as another one: that for pages of
some size that does not say which page (`bind_trim_iff`).
-/

namespace Recordset

namespace Builder

/-! ## Trimming -/

@[simp] theorem trim_nil : trim [] = [] := rfl

/-- A value as it is recorded before one that is given. -/
def recordedValue (v : Value) : Value := if v.isMissing then .null else v

theorem trim_eq_map_rdropWhile (vs : List Value) :
    trim vs = (vs.rdropWhile Value.isMissing).map recordedValue := rfl

/-- Arguments that are all left out are not recorded. -/
theorem trim_of_all_isMissing {vs : List Value} (h : ∀ v ∈ vs, v.isMissing = true) :
    trim vs = [] := by
  rw [trim_eq_map_rdropWhile, List.rdropWhile_eq_nil_iff.mpr h, List.map_nil]

/-- An argument is recorded when it or one behind it is given. -/
theorem trim_cons {v : Value} {vs : List Value} (h : ∃ w ∈ v :: vs, w.isMissing = false) :
    trim (v :: vs) = recordedValue v :: trim vs := by
  have hdrop : (v :: vs).rdropWhile Value.isMissing = v :: vs.rdropWhile Value.isMissing := by
    unfold List.rdropWhile
    rw [List.reverse_cons, List.dropWhile_append]
    cases hrest : vs.reverse.dropWhile Value.isMissing with
    | cons w ws => simp
    | nil =>
      have hall : ∀ w ∈ vs, w.isMissing = true :=
        List.rdropWhile_eq_nil_iff.mp (by rw [List.rdropWhile, hrest, List.reverse_nil])
      obtain ⟨w, hw, hgiven⟩ := h
      have hv : v.isMissing = false := by
        cases List.mem_cons.mp hw with
        | inl heq => rw [← heq, hgiven]
        | inr hmem => exact absurd (hall w hmem) (by simp [hgiven])
      simp [hv]
  rw [trim_eq_map_rdropWhile, hdrop, List.map_cons, trim_eq_map_rdropWhile]

/-- Arguments that are all given are recorded as they are. -/
theorem trim_of_given {vs : List Value} (h : ∀ v ∈ vs, v.isMissing = false) : trim vs = vs := by
  induction vs with
  | nil => rfl
  | cons v vs ih =>
    have hv : v.isMissing = false := h v List.mem_cons_self
    rw [trim_cons ⟨v, List.mem_cons_self, hv⟩, ih fun w hw => h w (List.mem_cons_of_mem v hw)]
    simp [recordedValue, hv]

/-! ## Filling in -/

/-- The parameter of a builder that a parameter of a method becomes. -/
def blank (p : Parameter) : Parameter := { p with default := p.default.map fun _ => .missing }

@[simp] theorem blank_name (p : Parameter) : (blank p).name = p.name := rfl

theorem signature_params (m : Method) : (signature m).params = m.signature.params.map blank := rfl

theorem signature_rest (m : Method) : (signature m).rest = m.signature.rest := rfl

/-- The values of parameters, those that are left out replaced by their defaults. -/
def completed : List Parameter → List Value → List Value
  | p :: ps, v :: vs => (if v.isMissing then p.default.getD .null else v) :: completed ps vs
  | _, vs => vs

/-- There is a value for every parameter; one that is left out has a default, which is null unless
all behind it are left out. -/
def Fits : List Parameter → List Value → Prop
  | [], [] => True
  | p :: ps, v :: vs =>
    (v.isMissing = true → p.default.isSome ∧
      ((∀ w ∈ vs, w.isMissing = true) ∨ p.default = some .null)) ∧ Fits ps vs
  | _, _ => False

/-- Recorded values are filled in as the given ones. -/
theorem fill_trim {ps : List Parameter} {vs : List Value} (h : Fits ps vs) :
    Signature.fill ps ⟨trim vs, []⟩ = .ok (completed ps vs) := by
  induction ps generalizing vs with
  | nil =>
    cases vs with
    | nil => rfl
    | cons v vs => exact h.elim
  | cons p ps ih =>
    cases vs with
    | nil => exact h.elim
    | cons v vs =>
      obtain ⟨hv, hvs⟩ := h
      have hrest := ih hvs
      by_cases hall : ∀ w ∈ v :: vs, w.isMissing = true
      · -- nothing is recorded from here on, and the default is taken
        have hmissing : v.isMissing = true := hall v List.mem_cons_self
        have hnone : trim vs = [] :=
          trim_of_all_isMissing fun w hw => hall w (List.mem_cons_of_mem v hw)
        obtain ⟨d, hd⟩ := Option.isSome_iff_exists.mp (hv hmissing).1
        rw [hnone] at hrest
        rw [trim_of_all_isMissing hall]
        simp only [Signature.fill, List.find?_nil, hd, hrest, completed, hmissing]
        rfl
      · -- the value is recorded, with null for one that is left out
        have hgiven : ∃ w ∈ v :: vs, w.isMissing = false := by
          simpa only [not_forall, exists_prop, Bool.not_eq_true] using hall
        have hvalue : recordedValue v = if v.isMissing then p.default.getD .null else v := by
          unfold recordedValue
          split_ifs with hmissing
          · cases (hv hmissing).2 with
            | inl hvs =>
              refine absurd (fun w hw => ?_) hall
              cases List.mem_cons.mp hw with
              | inl heq => rw [heq, hmissing]
              | inr hmem => exact hvs w hmem
            | inr hnull => rw [hnull]; rfl
          · rfl
        rw [trim_cons hgiven]
        simp only [Signature.fill, List.any_nil, hrest, completed, hvalue]
        rfl

theorem exists_of_map_eq_ok {α β : Type} {f : α → β} {r : Except Error α} {b : β}
    (h : r.map f = .ok b) : ∃ a, r = .ok a ∧ f a = b := by
  cases r with
  | error e => cases h
  | ok a => exact ⟨a, rfl, Except.ok.inj h⟩

/-- The arguments of a call that leaves nothing out by passing the marker for it. -/
def IsMarkerFree (a : Arguments) : Prop :=
  (∀ v ∈ a.positional, v.isMissing = false) ∧ ∀ x ∈ a.named, x.2.isMissing = false

/-- There is a value for every parameter, and one that is left out has a default. -/
def Covers : List Parameter → List Value → Prop
  | [], [] => True
  | p :: ps, v :: vs => (v.isMissing = true → p.default.isSome) ∧ Covers ps vs
  | _, _ => False

theorem length_eq_of_covers {ps : List Parameter} {vs : List Value} (h : Covers ps vs) :
    vs.length = ps.length := by
  induction ps generalizing vs with
  | nil =>
    cases vs with
    | nil => rfl
    | cons v vs => exact h.elim
  | cons p ps ih =>
    cases vs with
    | nil => exact h.elim
    | cons v vs => rw [List.length_cons, List.length_cons, ih h.2]

/-- The values that a builder finds are those that the method finds, but for the defaults. -/
theorem fill_of_fill_blank {ps : List Parameter} {a : Arguments} {vs : List Value}
    (hfree : IsMarkerFree a) (h : Signature.fill (ps.map blank) a = .ok vs) :
    Signature.fill ps a = .ok (completed ps vs) ∧ Covers ps vs := by
  induction ps generalizing a vs with
  | nil =>
    cases h
    exact ⟨rfl, trivial⟩
  | cons p ps ih =>
    obtain ⟨positional, named⟩ := a
    cases positional with
    | cons v positional =>
      have hv : v.isMissing = false := hfree.1 v List.mem_cons_self
      have hfree' : IsMarkerFree ⟨positional, named⟩ :=
        ⟨fun w hw => hfree.1 w (List.mem_cons_of_mem v hw), hfree.2⟩
      rw [List.map_cons, Signature.fill, blank_name] at h
      rw [Signature.fill]
      split_ifs at h ⊢ with hnamed
      obtain ⟨ws, hws, rfl⟩ := exists_of_map_eq_ok h
      obtain ⟨hfill, hcovers⟩ := ih hfree' hws
      rw [hfill]
      refine ⟨?_, fun hmissing => absurd hmissing (by simp [hv]), hcovers⟩
      simp [completed, hv, Except.map]
    | nil =>
      rw [List.map_cons, Signature.fill, blank_name] at h
      rw [Signature.fill]
      cases hfind : named.find? (·.1 == p.name) with
      | some x =>
        have hx : x.2.isMissing = false := hfree.2 x (List.mem_of_find?_eq_some hfind)
        rw [hfind] at h
        obtain ⟨ws, hws, rfl⟩ := exists_of_map_eq_ok h
        obtain ⟨hfill, hcovers⟩ := ih hfree hws
        refine ⟨?_, fun hmissing => absurd hmissing (by simp [hx]), hcovers⟩
        simp [hfill, completed, hx, Except.map]
      | none =>
        rw [hfind] at h
        cases hdefault : p.default with
        | none =>
          simp [blank, hdefault] at h
        | some d =>
          have hblank : (blank p).default = some .missing := by simp [blank, hdefault]
          rw [hblank] at h
          obtain ⟨ws, hws, rfl⟩ := exists_of_map_eq_ok h
          obtain ⟨hfill, hcovers⟩ := ih hfree hws
          refine ⟨?_, fun _ => by simp [hdefault], hcovers⟩
          simp [hfill, completed, hdefault, Value.isMissing, Except.map]

/-! ## Binding -/

/-- No argument has a name that no parameter has, and none is too many. -/
def Accepts (s : Signature) (a : Arguments) : Prop :=
  (a.named.any fun x => !s.params.any (·.name == x.1)) = false ∧
    (s.rest = true ∨ a.positional.length ≤ s.params.length)

theorem bind_of_accepts {s : Signature} {a : Arguments} (h : Accepts s a) :
    s.bind a = (Signature.fill s.params a).map (· ++ a.positional.drop s.params.length) := by
  obtain ⟨hnames, hcount⟩ := h
  have hfew : ¬ (!s.rest ∧ s.params.length < a.positional.length) := by
    simp only [Bool.not_eq_eq_eq_not, Bool.not_true, not_and, not_lt]
    intro hrest
    exact hcount.resolve_left (by simp [hrest])
  unfold Signature.bind
  rw [if_neg (by simpa using hnames), if_neg hfew]
  rfl

theorem accepts_of_bind {s : Signature} {a : Arguments} {vs : List Value} (h : s.bind a = .ok vs) :
    Accepts s a := by
  unfold Signature.bind at h
  split_ifs at h with hnames hcount
  refine ⟨by simpa using hnames, ?_⟩
  cases hrest : s.rest with
  | true => exact .inl rfl
  | false => exact .inr (by simpa [hrest] using hcount)

theorem accepts_of_accepts_signature {m : Method} {a : Arguments} (h : Accepts (signature m) a) :
    Accepts m.signature a := by
  obtain ⟨hnames, hcount⟩ := h
  refine ⟨?_, ?_⟩
  · simpa [signature_params, List.any_map, Function.comp_def] using hnames
  · simpa [signature_params, signature_rest] using hcount

/-- A builder records only methods that take either parameters or any number of arguments. -/
theorem params_of_rest {m : Method} (hm : m ∈ methods) (h : m.signature.rest = true) :
    m.signature.params = [] := by
  cases m with
  | splice => exact absurd hm (by decide)
  | _ => first | rfl | cases h

/-- A method that takes any number of arguments has them recorded as they are. -/
theorem bind_of_rest {m : Method} {a : Arguments} {vs : List Value} (hm : m ∈ methods)
    (hfree : IsMarkerFree a) (hrest : m.signature.rest = true)
    (h : (signature m).bind a = .ok vs) :
    m.signature.bind a = .ok vs ∧ m.signature.bind ⟨trim vs, []⟩ = .ok vs := by
  have hparams := params_of_rest hm hrest
  have haccepts := accepts_of_bind h
  have hvs : vs = a.positional := by
    rw [bind_of_accepts haccepts, signature_params, hparams] at h
    exact (Except.ok.inj h).symm
  have hgiven : trim vs = vs := trim_of_given (by rw [hvs]; exact hfree.1)
  constructor
  · rw [bind_of_accepts (accepts_of_accepts_signature haccepts), hparams, hvs]
    rfl
  · rw [hgiven, bind_of_accepts ⟨rfl, .inl hrest⟩, hparams]
    rfl

/-- A method that takes just its parameters finds the values that a builder finds, but for the
defaults. -/
theorem bind_of_params {m : Method} {a : Arguments} {vs : List Value} (hfree : IsMarkerFree a)
    (hrest : m.signature.rest = false) (h : (signature m).bind a = .ok vs) :
    m.signature.bind a = .ok (completed m.signature.params vs) ∧
      Covers m.signature.params vs := by
  have haccepts := accepts_of_bind h
  have hfew : a.positional.length ≤ m.signature.params.length := by
    simpa [signature_rest, hrest, signature_params] using haccepts.2
  have hnone : a.positional.drop m.signature.params.length = [] := List.drop_of_length_le hfew
  have hlength : (signature m).params.length = m.signature.params.length := by
    rw [signature_params, List.length_map]
  rw [bind_of_accepts haccepts, hlength, hnone] at h
  obtain ⟨ws, hws, hvs⟩ := exists_of_map_eq_ok h
  rw [List.append_nil] at hvs
  subst hvs
  obtain ⟨hfill, hcovers⟩ := fill_of_fill_blank hfree (signature_params m ▸ hws)
  refine ⟨?_, hcovers⟩
  rw [bind_of_accepts (accepts_of_accepts_signature haccepts), hnone, hfill]
  simp [Except.map]

theorem length_trim_le (vs : List Value) : (trim vs).length ≤ vs.length := by
  rw [trim_eq_map_rdropWhile, List.length_map]
  exact (List.rdropWhile_prefix Value.isMissing vs).length_le

/-- Recorded values are bound as the given ones, when they fit the parameters. -/
theorem bind_trim_of_fits {m : Method} {vs : List Value} (h : Fits m.signature.params vs)
    (hlength : vs.length = m.signature.params.length) :
    m.signature.bind ⟨trim vs, []⟩ = .ok (completed m.signature.params vs) := by
  have hfew : (trim vs).length ≤ m.signature.params.length :=
    hlength ▸ length_trim_le vs
  rw [bind_of_accepts ⟨rfl, .inr hfew⟩, fill_trim h]
  simp [Except.map, List.drop_of_length_le hfew]

/-! ## The one call that is recorded as another -/

/-- The call asks for pages of some size and leaves out which page: of the two parameters the first
one is left out and the second one given. -/
def SkipsPage (m : Method) (a : Arguments) : Prop :=
  m = .paginate ∧ ∃ vs, (signature m).bind a = .ok vs ∧ vs.map Value.isMissing = [true, false]

instance (m : Method) (a : Arguments) : Decidable (SkipsPage m a) :=
  inferInstanceAs (Decidable (_ ∧ _))

/-- What such a call leaves out is the page. -/
theorem SkipsPage.exists_size {m : Method} {a : Arguments} (h : SkipsPage m a) :
    m = .paginate ∧ ∃ size, (signature m).bind a = .ok [.missing, size] ∧
      size.isMissing = false := by
  obtain ⟨hm, vs, hbind, hmissing⟩ := h
  obtain ⟨page, size, rfl⟩ := List.length_eq_two.mp
    (show vs.length = 2 by simpa using congrArg List.length hmissing)
  obtain ⟨hpage, hsize⟩ : page.isMissing = true ∧ size.isMissing = false := by
    simpa using hmissing
  cases page with
  | missing => exact ⟨hm, size, hbind, hsize⟩
  | _ => cases hpage

/-- Every other method that a builder records has null for its defaults. -/
theorem default_eq_null {m : Method} (hm : m ∈ methods) (hother : m ≠ .paginate) :
    ∀ p ∈ m.signature.params, p.default.isSome → p.default = some .null := by
  cases m with
  | paginate => exact absurd rfl hother
  | _ =>
    first
    | exact absurd hm (by decide)
    | simp [Method.signature, Signature.required, Signature.optional]

theorem fits_of_default_eq_null {ps : List Parameter} {vs : List Value} (h : Covers ps vs)
    (hnull : ∀ p ∈ ps, p.default.isSome → p.default = some .null) : Fits ps vs := by
  induction ps generalizing vs with
  | nil =>
    cases vs with
    | nil => trivial
    | cons v vs => exact h.elim
  | cons p ps ih =>
    cases vs with
    | nil => exact h.elim
    | cons v vs =>
      refine ⟨fun hmissing => ⟨h.1 hmissing, .inr ?_⟩, ih h.2 fun q hq => ?_⟩
      · exact hnull p List.mem_cons_self (h.1 hmissing)
      · exact hnull q (List.mem_cons_of_mem p hq)

/-- The values of a call that does not leave out the page alone fit the parameters. -/
theorem fits_of_not_skipsPage {m : Method} {a : Arguments} {vs : List Value} (hm : m ∈ methods)
    (hcovers : Covers m.signature.params vs) (h : (signature m).bind a = .ok vs)
    (hskips : ¬ SkipsPage m a) : Fits m.signature.params vs := by
  by_cases hpaginate : m = .paginate
  · subst hpaginate
    match vs, hcovers with
    | [page, size], hcovers =>
      refine ⟨fun hmissing => ⟨rfl, .inl fun w hw => ?_⟩, fun _ => ⟨rfl, .inr rfl⟩, trivial⟩
      obtain rfl : w = size := by simpa using hw
      exact Bool.of_not_eq_false fun hgiven =>
        hskips ⟨rfl, [page, w], h, by simp [hmissing, hgiven]⟩
  · exact fits_of_default_eq_null hcovers (default_eq_null hm hpaginate)

/-- Such a call is recorded as one for no page at all, whereas it is one for the first page. -/
theorem bind_of_skipsPage {a : Arguments} {size : Value} (hfree : IsMarkerFree a)
    (h : (signature .paginate).bind a = .ok [.missing, size]) (hgiven : size.isMissing = false) :
    Method.paginate.signature.bind ⟨trim [.missing, size], []⟩ = .ok [.null, size] ∧
      Method.paginate.signature.bind a = .ok [.int 1, size] := by
  have htrim : trim [.missing, size] = [.null, size] := by
    rw [trim_cons ⟨size, by simp, hgiven⟩, trim_of_given (by simp [hgiven])]
    rfl
  obtain ⟨hdirect, -⟩ := bind_of_params hfree rfl h
  have hpage : Value.missing.isMissing = true := rfl
  rw [htrim, hdirect]
  refine ⟨rfl, ?_⟩
  simp [Method.signature, Signature.optional, completed, hpage, hgiven]

/-- What a builder records of a call stands for the call, unless it asks for pages of some size and
leaves out which page. -/
theorem bind_trim_iff {m : Method} {a : Arguments} {vs : List Value} (hm : m ∈ methods)
    (hfree : IsMarkerFree a) (h : (signature m).bind a = .ok vs) :
    m.signature.bind ⟨trim vs, []⟩ = m.signature.bind a ↔ ¬ SkipsPage m a := by
  by_cases hskips : SkipsPage m a
  · obtain ⟨rfl, size, hsize, hgiven⟩ := hskips.exists_size
    rw [hsize] at h
    cases h
    obtain ⟨hrecorded, hdirect⟩ := bind_of_skipsPage hfree hsize hgiven
    rw [hrecorded, hdirect]
    refine iff_of_false (fun heq => ?_) (not_not_intro hskips)
    cases heq
  · refine iff_of_true ?_ hskips
    cases hrest : m.signature.rest with
    | true =>
      obtain ⟨hdirect, hrecorded⟩ := bind_of_rest hm hfree hrest h
      rw [hdirect, hrecorded]
    | false =>
      obtain ⟨hdirect, hcovers⟩ := bind_of_params hfree hrest h
      rw [hdirect]
      exact bind_trim_of_fits (fits_of_not_skipsPage hm hcovers h hskips)
        (length_eq_of_covers hcovers)

end Builder

end Recordset
