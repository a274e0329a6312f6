import Recordset.Proofs.Entries
import Recordset.Proofs.Nesting
import Recordset.Proofs.Query.Reading
import Recordset.Proofs.Steady.Known
set_option autoImplicit false

/-!
# Malformed queries are refused

What it takes for a query to be malformed is read off the query itself (`Malformed`,
`MalformedClause`): which part is malformed matters, not in which order the parts are looked at.
Compiling a query gives an expression exactly when it is not malformed, and refuses it otherwise.

Two refusals write out what they refuse: the keys of a mapping that mixes operators with plain
fields, and what a query-level negation is put to when that is no query (`Quoted`).  Where writing
such a value fails, its failure takes the place of the refusal.

`Query.compile_ok_iff` is the main statement.
-/

namespace Recordset.Query

/-! ## The grammar -/

/-- An operand that gives no list of candidates. -/
def IsNoList (s : Store) (operand : Value) : Prop :=
  (∃ t, operand = .str t) ∨ (∃ bs, operand = .bytes bs) ∨ s.isMapping operand = true ∨
    s.isIterable operand = false

/-- Operators beside plain fields. -/
def IsMixed (es : Entries) : Prop :=
  (∃ e ∈ es, isOperatorKey e.1 = true) ∧ ∃ e ∈ es, isOperatorKey e.1 = false

/-- Which factories give a predicate for a path and an operand. -/
abbrev Yield := Value → Value → Value → Bool

/-- A malformed clause for a path. -/
inductive MalformedClause (s : Store) (validators : Value) (yields : Yield) (path : Value) :
    Value → Prop where
  | mixed {clause : Value} {es : Entries} (hes : s.entries? clause = some es)
      (hmixed : IsMixed es) :
      MalformedClause s validators yields path clause
  | notAList {clause operand : Value} {es : Entries} (hes : operatorEntries? s clause = some es)
      (hmem : (.str "$in", operand) ∈ es) (hoperand : IsNoList s operand) :
      MalformedClause s validators yields path clause
  | negated {clause operand : Value} {es : Entries} (hes : operatorEntries? s clause = some es)
      (hmem : (.str "$not", operand) ∈ es)
      (hoperand : MalformedClause s validators yields path operand) :
      MalformedClause s validators yields path clause
  /-- a symbol that nobody knows -/
  | unknown {clause operand : Value} {es : Entries} {symbol : String}
      (hes : operatorEntries? s clause = some es) (hmem : (.str symbol, operand) ∈ es)
      (hcustom : Operator.isBuiltin symbol = false)
      (hnone : factoryOf s validators symbol = .null) :
      MalformedClause s validators yields path clause
  /-- a factory that gives no predicate -/
  | notAPredicate {clause operand : Value} {es : Entries} {symbol : String}
      (hes : operatorEntries? s clause = some es) (hmem : (.str symbol, operand) ∈ es)
      (hcustom : Operator.isBuiltin symbol = false)
      (hsome : factoryOf s validators symbol ≠ .null)
      (hyields : yields (factoryOf s validators symbol) path operand = false) :
      MalformedClause s validators yields path clause

/-- A malformed query.  A negation is malformed when what it is put to is, be it a mapping or no
query at all. -/
inductive Malformed (s : Store) (validators : Value) (yields : Yield) : Value → Prop where
  | notAQuery {spec : Value} (hmapping : s.isMapping spec = false)
      (hcallable : s.isCallable spec = false) : Malformed s validators yields spec
  /-- an operator where a path belongs -/
  | unknownKey {spec clause : Value} {es : Entries} {name : String}
      (hes : s.entries? spec = some es) (hmem : (.str name, clause) ∈ es)
      (hname : isOperatorName name = true) (hnot : name ≠ "$not") :
      Malformed s validators yields spec
  | negated {spec inner : Value} {es : Entries} (hes : s.entries? spec = some es)
      (hmem : (.str "$not", inner) ∈ es) (hinner : Malformed s validators yields inner) :
      Malformed s validators yields spec
  | clause {spec key clause : Value} {es : Entries} (hes : s.entries? spec = some es)
      (hmem : (key, clause) ∈ es) (hkey : key ≠ .str "$not")
      (hclause : MalformedClause s validators yields key clause) :
      Malformed s validators yields spec

/-- A value that the refusal of a clause can write out. -/
inductive QuotedClause (s : Store) : Value → Value → Prop where
  | key {clause key v : Value} {es : Entries} (hes : s.entries? clause = some es)
      (hmixed : IsMixed es) (hmem : (key, v) ∈ es) : QuotedClause s clause key
  | negated {clause operand x : Value} {es : Entries} (hes : operatorEntries? s clause = some es)
      (hmem : (.str "$not", operand) ∈ es) (hoperand : QuotedClause s operand x) :
      QuotedClause s clause x

/-- A value that the refusal of a query can write out. -/
inductive Quoted (s : Store) : Value → Value → Prop where
  | notNested {spec inner : Value} {es : Entries} (hes : s.entries? spec = some es)
      (hmem : (.str "$not", inner) ∈ es) (hmapping : s.isMapping inner = false)
      (hcallable : s.isCallable inner = false) : Quoted s spec inner
  | negated {spec inner x : Value} {es : Entries} (hes : s.entries? spec = some es)
      (hmem : (.str "$not", inner) ∈ es) (hinner : Quoted s inner x) : Quoted s spec x
  | clause {spec key clause x : Value} {es : Entries} (hes : s.entries? spec = some es)
      (hmem : (key, clause) ∈ es) (hkey : key ≠ .str "$not") (hclause : QuotedClause s clause x) :
      Quoted s spec x

/-- A clause whose negations end, and all of whose lists of candidates can be iterated when they
offer to be. -/
inductive AdmissibleClause (s : Store) : Value → Prop where
  | intro {clause : Value}
      (hcandidates : ∀ es operand, operatorEntries? s clause = some es →
        (.str "$in", operand) ∈ es → s.isUnsteady operand = false)
      (hnegated : ∀ es operand, operatorEntries? s clause = some es →
        (.str "$not", operand) ∈ es → AdmissibleClause s operand) : AdmissibleClause s clause

/-- A query whose negations end, and all of whose lists of candidates can be iterated when they
offer to be. -/
inductive Admissible (s : Store) : Value → Prop where
  | intro {spec : Value}
      (hnegated : ∀ es inner, s.entries? spec = some es → (.str "$not", inner) ∈ es →
        Admissible s inner)
      (hclause : ∀ es key clause, s.entries? spec = some es → (key, clause) ∈ es →
        key ≠ .str "$not" → AdmissibleClause s clause) : Admissible s spec

/-- What an object of operators holds. -/
theorem operatorEntries?_some {s : Store} {clause : Value} {es : Entries}
    (h : operatorEntries? s clause = some es) :
    s.entries? clause = some es ∧ ∀ e ∈ es, isOperatorKey e.1 = true := by
  unfold operatorEntries? at h
  dsimp only at h
  split_ifs at h with hkeys
  cases hes : s.entries? clause with
  | none => simp [hes] at hkeys
  | some fs =>
    rw [hes] at h hkeys
    cases h
    exact ⟨rfl, hkeys.2⟩

theorem AdmissibleClause.of_entries {s : Store} {clause : Value} {es : Entries}
    (hes : s.entries? clause = some es)
    (h : ∀ e ∈ es, (e.1 = .str "$in" → s.isUnsteady e.2 = false) ∧
      (e.1 = .str "$not" → AdmissibleClause s e.2)) : AdmissibleClause s clause := by
  have hmem : ∀ {fs : Entries} {e : Value × Value},
      operatorEntries? s clause = some fs → e ∈ fs → e ∈ es := by
    intro fs e hfs he
    cases hes.symm.trans (operatorEntries?_some hfs).1
    exact he
  exact ⟨fun fs operand hfs he => (h _ (hmem hfs he)).1 rfl,
    fun fs operand hfs he => (h _ (hmem hfs he)).2 rfl⟩

theorem Admissible.of_entries {s : Store} {spec : Value} {es : Entries}
    (hes : s.entries? spec = some es)
    (h : ∀ e ∈ es, (e.1 = .str "$not" → Admissible s e.2) ∧
      (e.1 ≠ .str "$not" → AdmissibleClause s e.2)) : Admissible s spec := by
  constructor
  · intro fs inner hfs hmem
    cases hes.symm.trans hfs
    exact (h _ hmem).1 rfl
  · intro fs key clause hfs hmem hkey
    cases hes.symm.trans hfs
    exact (h _ hmem).2 hkey

/-- The factories of custom operators do not fail and change no mapping, and for which paths and
operands they give a predicate does not depend on when they are called. -/
def FactoriesAnswer (caller : Caller) (validators : Value) (yields : Yield) (s : State) : Prop :=
  ∀ symbol, factoryOf s.store validators symbol ≠ .null → ∀ path operand u, s.KeepsMappings u →
    ∃ p w, (caller (factoryOf s.store validators symbol) [path, operand]).execute u = (.ok p, w) ∧
      u.KeepsMappings w ∧
      w.store.isCallable p = yields (factoryOf s.store validators symbol) path operand

/-! ## How compiling ends -/

/-- A failure that refuses a query, or that comes from writing out what is refused. -/
def Refuses (s : State) (quoted : Value → Prop) (err : Error) : Prop :=
  (∃ q, err = .refusal q ∧ q.family = .query) ∨
    ∃ x u, quoted x ∧ s.KeepsMappings u ∧ u.store.shown x = .error err

/-- From every state that comes after `s`, an action gives a result if nothing is malformed, and
changes no mapping; otherwise it refuses. -/
def Settles {α : Type} (s : State) (malformed : Prop) (quoted : Value → Prop) (x : Action α) :
    Prop :=
  ∀ u, s.KeepsMappings u →
    match x.execute u with
    | (.ok _, t) => ¬ malformed ∧ s.KeepsMappings t
    | (.error err, _) => malformed ∧ Refuses s quoted err

namespace Settles

variable {α β : Type} {s : State} {malformed malformed' : Prop} {quoted quoted' : Value → Prop}

theorem congr {x : Action α} (h : Settles s malformed quoted x) (hiff : malformed ↔ malformed')
    (hquoted : ∀ v, quoted v → quoted' v) : Settles s malformed' quoted' x := by
  intro u hu
  have hx := h u hu
  cases hrun : x.execute u with
  | mk r t =>
    rw [hrun] at hx
    cases r with
    | ok a => exact ⟨fun hm => hx.1 (hiff.mpr hm), hx.2⟩
    | error err =>
      refine ⟨hiff.mp hx.1, ?_⟩
      rcases hx.2 with hrefusal | ⟨v, w, hv, hw, hshown⟩
      · exact .inl hrefusal
      · exact .inr ⟨v, w, hquoted v hv, hw, hshown⟩

theorem pure (a : α) (h : ¬ malformed) : Settles s malformed quoted (pure a : Action α) :=
  fun _ hu => ⟨h, hu⟩

theorem refuse {q : Refusal} (h : malformed) (hq : q.family = .query) :
    Settles s malformed quoted (Action.refuse q : Action α) :=
  fun _ _ => ⟨h, .inl ⟨q, rfl, hq⟩⟩

/-- What is done with the result of an action that settles does not matter, when it is only looked
at. -/
theorem map {x : Action α} (h : Settles s malformed quoted x) (f : α → β) :
    Settles s malformed quoted (do return f (← x)) := by
  intro u hu
  have hx := h u hu
  rw [Action.execute_bind]
  cases hrun : x.execute u with
  | mk r t =>
    rw [hrun] at hx
    cases r with
    | ok a => exact hx
    | error err => exact hx

/-- Looking at the state settles what the rest settles. -/
theorem get {f : State → Action α}
    (h : ∀ u, s.KeepsMappings u → Settles s malformed quoted (f u)) :
    Settles s malformed quoted (get >>= f) :=
  fun u hu => h u hu u hu

/-- Entries settle whether one of them is malformed. -/
theorem compileEach (malformed : Value × Value → Prop) (quoted : Value × Value → Value → Prop)
    {compile : Value → Value → Action Expression} {es : Entries}
    (h : ∀ key v, (key, v) ∈ es →
      Settles s (malformed (key, v)) (quoted (key, v)) (compile key v)) :
    Settles s (∃ e ∈ es, malformed e) (fun x => ∃ e ∈ es, quoted e x)
      (Query.compileEach compile es) := by
  induction es with
  | nil => exact pure _ (by simp)
  | cons e rest ih =>
    obtain ⟨key, v⟩ := e
    intro u hu
    have hfirst := h key v List.mem_cons_self u hu
    unfold Query.compileEach
    rw [Action.execute_bind]
    cases hrun : (compile key v).execute u with
    | mk r t =>
      rw [hrun] at hfirst
      cases r with
      | error err =>
        obtain ⟨hbad, hrefuses⟩ := hfirst
        refine ⟨⟨_, List.mem_cons_self, hbad⟩, ?_⟩
        rcases hrefuses with hrefusal | ⟨x, w, hx, hw, hshown⟩
        · exact .inl hrefusal
        · exact .inr ⟨x, w, ⟨_, List.mem_cons_self, hx⟩, hw, hshown⟩
      | ok a =>
        obtain ⟨hgood, ht⟩ := hfirst
        have hrest := ih (fun key v hmem => h key v (List.mem_cons_of_mem _ hmem)) t ht
        dsimp only
        rw [Action.execute_bind]
        cases hmore : (Query.compileEach compile rest).execute t with
        | mk r w =>
          rw [hmore] at hrest
          cases r with
          | ok as =>
            refine ⟨?_, hrest.2⟩
            rintro ⟨e, hmem, hbad⟩
            rcases List.mem_cons.mp hmem with rfl | hmem
            · exact hgood hbad
            · exact hrest.1 ⟨e, hmem, hbad⟩
          | error err =>
            obtain ⟨⟨e, hmem, hbad⟩, hrefuses⟩ := hrest
            refine ⟨⟨e, List.mem_cons_of_mem _ hmem, hbad⟩, ?_⟩
            rcases hrefuses with hrefusal | ⟨x, w', ⟨d, hd, hx⟩, hw, hshown⟩
            · exact .inl hrefusal
            · exact .inr ⟨x, w', ⟨d, List.mem_cons_of_mem _ hd, hx⟩, hw, hshown⟩

end Settles

/-! ## Entries and factories -/

/-- The factory of a symbol is the same in every later state. -/
theorem factoryOf_eq {s u : State} (h : s.KeepsMappings u) {validators : Value}
    (hknown : s.store.Knows validators) (symbol : String) :
    factoryOf u.store validators symbol = factoryOf s.store validators symbol := by
  unfold factoryOf
  simp only [h.entries? hknown, Entries.find?_str]

/-- Looking for a factory finds the one under the symbol, or else the one under the symbol without
its sign, unless it is null. -/
theorem execute_factory? (symbol : String) (validators : Value) (u : State) :
    (factory? symbol validators).execute u =
      (.ok (match factoryOf u.store validators symbol with
        | .null => none
        | f => some f), u) := by
  unfold factory? factoryOf
  rw [Action.execute_get_bind]
  cases hes : u.store.entries? validators with
  | none =>
    simp only [hes]
    rfl
  | some es =>
    simp only [hes, Option.getD_some, ← List.drop_one]
    cases hfound : Entries.find? u.store es (.str symbol) with
    | some f => cases f <;> rfl
    | none =>
      generalize Entries.find? u.store es (.str (String.ofList (symbol.toList.drop 1))) = bare
      cases bare with
      | none => rfl
      | some f => cases f <;> rfl

/-- A clause that mixes nothing is told apart as an object of operators or none. -/
theorem execute_operators?_of_not_mixed {clause : Value} {u : State}
    (h : ∀ es, u.store.entries? clause = some es → ¬ IsMixed es) :
    (operators? clause).execute u = (.ok (operatorEntries? u.store clause), u) := by
  unfold operators? operatorEntries?
  rw [Action.execute_get_bind]
  cases hes : u.store.entries? clause with
  | none =>
    simp only [hes]
    simp
  | some es =>
    simp only [hes, Option.getD_some]
    by_cases hoperator : ∃ e ∈ es, isOperatorKey e.1 = true
    · have hany : (es.any fun e => isOperatorKey e.1) = true := by simpa using hoperator
      have hkeys : ∀ e ∈ es, isOperatorKey e.1 = true := by
        intro e he
        by_contra hplain
        exact h es hes ⟨hoperator, e, he, by simpa using hplain⟩
      have hne : es ≠ [] := by
        rintro rfl
        simp at hoperator
      have hall : (es.all fun e => isOperatorKey e.1) = true := by simpa using hkeys
      rw [if_neg (by simp [hany]), if_pos hall, if_pos ⟨hne, hkeys⟩]
      rfl
    · have hany : (es.any fun e => isOperatorKey e.1) = false := by simpa using hoperator
      have hnone : ¬ (es ≠ [] ∧ ∀ e ∈ es, isOperatorKey e.1 = true) := by
        rintro ⟨hne, hkeys⟩
        obtain ⟨e, he⟩ := List.exists_mem_of_ne_nil es hne
        exact hoperator ⟨e, he, hkeys e he⟩
      rw [if_pos (by simp [hany]), if_neg hnone]
      rfl

/-- Where a list can not be worked off, one of its elements fails. -/
theorem exists_of_mapM_error {α β : Type} {f : α → Except Error β} {err : Error} :
    ∀ {xs : List α}, xs.mapM f = .error err → ∃ x ∈ xs, f x = .error err := by
  intro xs
  induction xs with
  | nil => intro h; cases h
  | cons x xs ih =>
    intro h
    rw [List.mapM_cons] at h
    cases hx : f x with
    | error e =>
      rw [hx] at h
      cases h
      exact ⟨x, List.mem_cons_self, hx⟩
    | ok b =>
      cases hxs : xs.mapM f with
      | error e =>
        rw [hx, hxs] at h
        cases h
        obtain ⟨y, hy, hfails⟩ := ih hxs
        exact ⟨y, List.mem_cons_of_mem _ hy, hfails⟩
      | ok bs =>
        rw [hx, hxs] at h
        cases h

/-- A clause that mixes operators and plain fields is refused, or one of its keys can not be
written. -/
theorem execute_operators?_of_mixed {clause : Value} {u : State} {es : Entries}
    (hes : u.store.entries? clause = some es) (hmixed : IsMixed es) :
    ∃ err, (operators? clause).execute u = (.error err, u) ∧
      ((∃ q, err = .refusal q ∧ q.family = .query) ∨
        ∃ e ∈ es, u.store.shown e.1 = .error err) := by
  unfold operators?
  rw [Action.execute_get_bind]
  have hany : (es.any fun e => isOperatorKey e.1) = true := by simpa using hmixed.1
  have hall : ¬ (es.all fun e => isOperatorKey e.1) = true := by simpa using hmixed.2
  simp only [hes, hany, Bool.not_true, Bool.false_eq_true, if_false, if_neg hall]
  rw [Action.execute_bind, Action.execute_ofExcept]
  cases hkeys : es.mapM fun e => u.store.shown e.1 with
  | ok keys => exact ⟨_, rfl, .inl ⟨_, rfl, rfl⟩⟩
  | error err =>
    refine ⟨err, rfl, .inr ?_⟩
    exact exists_of_mapM_error hkeys

/-! ## Compiling settles what is malformed -/

section

variable {caller : Caller} {validators : Value} {yields : Yield} {s : State}

/-- Whether an operand gives a list does not change. -/
theorem isNoList_iff {u : State} {operand : Value} (h : s.KeepsMappings u)
    (hknown : s.store.Knows operand) :
    IsNoList u.store operand ↔ IsNoList s.store operand := by
  unfold IsNoList
  rw [h.evolves.isMapping hknown, h.evolves.isIterable hknown]

/-- An operand is refused exactly when it gives no list where one is asked for. -/
theorem settles_prepare {op : Operator} {operand : Value} {quoted : Value → Prop}
    (hknown : s.store.Knows operand)
    (hsteady : op = .oneOf → s.store.isUnsteady operand = false) :
    Settles s (op = .oneOf ∧ IsNoList s.store operand) quoted (op.prepare operand) := by
  by_cases hop : op = .oneOf
  · subst hop
    unfold Operator.prepare
    refine Settles.get fun u hu => ?_
    have hlist := isNoList_iff hu hknown
    dsimp only
    split_ifs with hrefused
    · refine Settles.refuse ⟨rfl, hlist.mp ?_⟩ rfl
      unfold IsNoList
      cases operand <;> simp_all
    · intro w hw
      have hiterable : w.store.isIterable operand = true := by
        rw [hw.evolves.isIterable hknown, ← hu.evolves.isIterable hknown]
        cases operand <;> simp_all
      have hgood : ¬ IsNoList s.store operand := by
        intro hbad
        refine hrefused ?_
        rcases hlist.mpr hbad with ⟨t, rfl⟩ | ⟨bs, rfl⟩ | hmapping | hnone
        · rfl
        · rfl
        · cases operand <;> simp_all
        · cases operand <;> simp_all
      have hstays := (hw.evolves.isUnsteady hknown).trans (hsteady rfl)
      obtain ⟨xs, t, hrun⟩ := Action.iterate_ok hiterable hstays
      have ht : w.KeepsMappings t := by
        have hkeeps := Action.keepsMappings_iterate operand w
        rwa [hrun] at hkeeps
      rw [Action.execute_bind_of_ok hrun, Action.execute_make]
      exact ⟨fun h => hgood h.2, (hw.trans ht).trans (t.keepsMappings_alloc _)⟩
  · rw [prepare_of_ne_oneOf hop]
    exact Settles.pure operand fun h => hop h.1

/-- A custom operator is refused exactly when nobody knows it, or its factory gives no predicate. -/
theorem settles_customTerm {path operand : Value} {symbol : String} {quoted : Value → Prop}
    (hknown : s.store.Knows validators) (hanswer : FactoriesAnswer caller validators yields s) :
    Settles s
      (factoryOf s.store validators symbol = .null ∨
        yields (factoryOf s.store validators symbol) path operand = false)
      quoted (customTerm caller validators path symbol operand) := by
  intro u hu
  unfold customTerm
  rw [Action.execute_bind_of_ok (execute_factory? symbol validators u), factoryOf_eq hu hknown]
  by_cases hnull : factoryOf s.store validators symbol = .null
  · rw [hnull]
    exact ⟨.inl rfl, .inl ⟨_, rfl, rfl⟩⟩
  · obtain ⟨p, w, hrun, hw, hyields⟩ := hanswer symbol hnull path operand u hu
    have hfound : (match factoryOf s.store validators symbol with
        | .null => none
        | f => some f) = some (factoryOf s.store validators symbol) := by
      revert hnull
      cases factoryOf s.store validators symbol <;> simp
    rw [hfound, Action.execute_bind_of_ok hrun, Action.execute_get_bind]
    dsimp only
    rw [hyields]
    cases hpredicate : yields (factoryOf s.store validators symbol) path operand with
    | true => exact ⟨by simp [hnull], hu.trans hw⟩
    | false => exact ⟨.inr rfl, .inl ⟨_, rfl, rfl⟩⟩

theorem operatorEntries?_eq {u : State} (h : s.KeepsMappings u) {clause : Value}
    (hknown : s.store.Knows clause) :
    operatorEntries? u.store clause = operatorEntries? s.store clause := by
  unfold operatorEntries?
  rw [h.entries? hknown]

/-- A malformed entry of an object of operators. -/
def MalformedPart (s : Store) (validators : Value) (yields : Yield) (path : Value)
    (e : Value × Value) : Prop :=
  (e.1 = .str "$in" ∧ IsNoList s e.2) ∨
    (e.1 = .str "$not" ∧ MalformedClause s validators yields path e.2) ∨
    ∃ symbol, e.1 = .str symbol ∧ Operator.isBuiltin symbol = false ∧
      (factoryOf s validators symbol = .null ∨
        yields (factoryOf s validators symbol) path e.2 = false)

/-- A value that an entry of an object of operators writes out when it is refused. -/
def QuotedPart (s : Store) (e : Value × Value) (x : Value) : Prop :=
  e.1 = .str "$not" ∧ QuotedClause s e.2 x

/-- An object of operators is malformed when one of its entries is. -/
theorem malformedClause_iff {s : Store} {path clause : Value} {es : Entries}
    (hes : operatorEntries? s clause = some es) :
    (∃ e ∈ es, MalformedPart s validators yields path e) ↔
      MalformedClause s validators yields path clause := by
  obtain ⟨hentries, hkeys⟩ := operatorEntries?_some hes
  constructor
  · rintro ⟨⟨key, operand⟩, hmem, ⟨hkey, hbad⟩ | ⟨hkey, hbad⟩ | ⟨symbol, hkey, hcustom, hbad⟩⟩
    · cases hkey
      exact .notAList hes hmem hbad
    · cases hkey
      exact .negated hes hmem hbad
    · cases hkey
      by_cases hnull : factoryOf s validators symbol = .null
      · exact .unknown hes hmem hcustom hnull
      · exact .notAPredicate hes hmem hcustom hnull (hbad.resolve_left hnull)
  · intro h
    cases h with
    | mixed hfs hmixed =>
      cases hentries.symm.trans hfs
      obtain ⟨e, he, hplain⟩ := hmixed.2
      rw [hkeys e he] at hplain
      cases hplain
    | notAList hfs hmem hbad =>
      cases hes.symm.trans hfs
      exact ⟨_, hmem, .inl ⟨rfl, hbad⟩⟩
    | negated hfs hmem hbad =>
      cases hes.symm.trans hfs
      exact ⟨_, hmem, .inr (.inl ⟨rfl, hbad⟩)⟩
    | unknown hfs hmem hcustom hnull =>
      cases hes.symm.trans hfs
      exact ⟨_, hmem, .inr (.inr ⟨_, rfl, hcustom, .inl hnull⟩)⟩
    | notAPredicate hfs hmem hcustom hsome hyields =>
      cases hes.symm.trans hfs
      exact ⟨_, hmem, .inr (.inr ⟨_, rfl, hcustom, .inr hyields⟩)⟩

/-- A value that is no mapping is no malformed clause: it stands for itself. -/
theorem not_malformedClause {s : Store} {path clause : Value}
    (hes : operatorEntries? s clause = none)
    (hmixed : ∀ es, s.entries? clause = some es → ¬ IsMixed es) :
    ¬ MalformedClause s validators yields path clause := by
  intro h
  cases h with
  | mixed hfs hbad => exact hmixed _ hfs hbad
  | notAList hfs | negated hfs | unknown hfs | notAPredicate hfs =>
    rw [hes] at hfs
    cases hfs

/-- What a clause negates. -/
def ClauseNegates (s : Store) (outer inner : Value) : Prop :=
  ∃ es, operatorEntries? s outer = some es ∧ (.str "$not", inner) ∈ es

/-- A part of an object of operators settles whether it is malformed. -/
theorem settles_part {path : Value} {nested : Value → Action Expression} {key operand : Value}
    (hvalidators : s.store.Knows validators) (hanswer : FactoriesAnswer caller validators yields s)
    (hknown : s.store.Knows operand) (hkey : isOperatorKey key = true)
    (hsteady : key = .str "$in" → s.store.isUnsteady operand = false)
    (hnested : key = .str "$not" →
      Settles s (MalformedClause s.store validators yields path operand)
        (QuotedClause s.store operand) (nested operand)) :
    Settles s (MalformedPart s.store validators yields path (key, operand))
      (QuotedPart s.store (key, operand))
      (match key with
        | .str symbol =>
          if symbol = Operator.negation then do return .not (← nested operand)
          else
            match Operator.ofSymbol? symbol with
            | some op => do return .term path op (← op.prepare operand)
            | none => customTerm caller validators path symbol operand
        | _ => Action.fault .type) := by
  cases key with
  | str symbol =>
    dsimp only
    split_ifs with hnot
    · have hkey : Value.str symbol = .str "$not" := congrArg Value.str hnot
      refine ((hnested hkey).map Expression.not).congr ?_ fun x hx => ⟨hkey, hx⟩
      unfold MalformedPart
      constructor
      · exact fun h => .inr (.inl ⟨hkey, h⟩)
      · rintro (⟨h, _⟩ | ⟨_, h⟩ | ⟨t, h, hcustom, _⟩)
        · exact absurd (Value.str.inj (hkey.symm.trans h)) (by decide)
        · exact h
        · cases h
          simp [Operator.isBuiltin, hnot] at hcustom
    · cases hop : Operator.ofSymbol? symbol with
      | some op =>
        have hin : op = .oneOf ↔ symbol = "$in" := by
          constructor
          · rintro rfl
            exact eq_in_of_ofSymbol? hop
          · rintro rfl
            have hsymbol : Operator.ofSymbol? "$in" = some .oneOf := by decide +kernel
            exact Option.some.inj (hop.symm.trans hsymbol)
        refine ((settles_prepare hknown fun h => hsteady (congrArg Value.str (hin.mp h))).map
          (Expression.term path op)).congr ?_ fun x hx => hx
        unfold MalformedPart
        constructor
        · rintro ⟨h, hbad⟩
          exact .inl ⟨congrArg Value.str (hin.mp h), hbad⟩
        · rintro (⟨h, hbad⟩ | ⟨h, _⟩ | ⟨t, h, hcustom, _⟩)
          · exact ⟨hin.mpr (Value.str.inj h), hbad⟩
          · exact absurd (Value.str.inj h) hnot
          · cases h
            simp [Operator.isBuiltin, hop] at hcustom
      | none =>
        refine (settles_customTerm hvalidators hanswer).congr ?_ fun x hx => hx
        unfold MalformedPart
        have hcustom : Operator.isBuiltin symbol = false := by
          simp [Operator.isBuiltin, hop, hnot]
        constructor
        · exact fun h => .inr (.inr ⟨symbol, rfl, hcustom, h⟩)
        · rintro (⟨h, _⟩ | ⟨h, _⟩ | ⟨t, h, _, hbad⟩)
          · cases h
            exact absurd hop (by decide +kernel)
          · exact absurd (Value.str.inj h) hnot
          · cases h
            exact hbad
  | _ => cases hkey

/-- The clause for a path settles whether it is malformed, within a bound on its negations. -/
theorem settles_compileClauseAt (hclosed : s.store.Closed) (hvalidators : s.store.Knows validators)
    (hanswer : FactoriesAnswer caller validators yields s) (path : Value) :
    ∀ (fuel : Nat) (clause : Value), NestsWithin (ClauseNegates s.store) fuel clause →
      AdmissibleClause s.store clause → s.store.Knows clause →
      Settles s (MalformedClause s.store validators yields path clause)
        (QuotedClause s.store clause) (compileClauseAt caller validators path fuel clause) := by
  intro fuel
  induction fuel with
  | zero => intro clause hnests; exact hnests.elim
  | succ fuel ih =>
    intro clause hnests hadmissible hknown
    by_cases hpattern : ∃ p, clause = .pattern p
    · obtain ⟨p, rfl⟩ := hpattern
      rw [compileClauseAt]
      exact Settles.pure _ (not_malformedClause rfl fun es hes => by cases hes)
    have hplain : ∀ p, clause = .pattern p → False := fun p hp => hpattern ⟨p, hp⟩
    rw [compileClauseAt.eq_3 _ _ _ _ _ hplain]
    by_cases hmixed : ∃ es, s.store.entries? clause = some es ∧ IsMixed es
    · -- the keys are looked at before any operator is
      obtain ⟨es, hes, hmixed⟩ := hmixed
      intro u hu
      obtain ⟨err, hrun, hrefuses⟩ :=
        execute_operators?_of_mixed ((hu.entries? hknown).trans hes) hmixed
      rw [Action.execute_bind_of_error hrun]
      refine ⟨.mixed hes hmixed, ?_⟩
      rcases hrefuses with hrefusal | ⟨⟨key, v⟩, hmem, hshown⟩
      · exact .inl hrefusal
      · exact .inr ⟨key, u, .key hes hmixed hmem, hu, hshown⟩
    · have hnone : ∀ es, s.store.entries? clause = some es → ¬ IsMixed es :=
        fun es hes hbad => hmixed ⟨es, hes, hbad⟩
      intro u hu
      rw [Action.execute_bind_of_ok (execute_operators?_of_not_mixed fun es hes =>
        hnone es ((hu.entries? hknown).symm.trans hes)), operatorEntries?_eq hu hknown]
      cases hes : operatorEntries? s.store clause with
      | none => exact ⟨not_malformedClause hes hnone, hu⟩
      | some es =>
        obtain ⟨hentries, hkeys⟩ := operatorEntries?_some hes
        obtain ⟨hcandidates, hnegated⟩ := hadmissible
        refine ((Settles.compileEach (MalformedPart s.store validators yields path)
          (QuotedPart s.store) fun key operand hmem => ?_).map conjunction).congr
          (malformedClause_iff hes) ?_ u hu
        · refine settles_part hvalidators hanswer (hclosed.knows_entry hentries hmem).2
            (hkeys _ hmem) ?_ ?_
          · rintro rfl
            exact hcandidates es operand hes hmem
          · rintro rfl
            exact ih operand (hnests operand ⟨es, hes, hmem⟩) (hnegated es operand hes hmem)
              (hclosed.knows_entry hentries hmem).2
        · rintro x ⟨⟨key, operand⟩, hmem, hkey, hx⟩
          cases hkey
          exact .negated hes hmem hx

/-- What negates lies in a cell. -/
theorem exists_address_of_entries? {s : Store} {v : Value} {es : Entries}
    (h : s.entries? v = some es) : ∃ a : Address, v = .ref a ∧ a.index < s.size := by
  have hview : ∃ c, s.view v = some c := by
    rcases Store.view_of_entries? h with hview | hview
    · exact ⟨_, hview⟩
    · exact ⟨_, hview⟩
  obtain ⟨c, hc⟩ := hview
  cases v with
  | ref a => exact ⟨a, rfl, Store.knows_of_view hc⟩
  | _ => cases hc

theorem acc_of_admissibleClause {s : Store} {clause : Value} (h : AdmissibleClause s clause) :
    Acc (fun inner outer => ClauseNegates s outer inner) clause := by
  induction h with
  | intro _ _ ih => exact .intro _ fun inner ⟨es, hes, hmem⟩ => ih es inner hes hmem

/-- The clause for a path settles whether it is malformed. -/
theorem settles_compileClause (hclosed : s.store.Closed) (hvalidators : s.store.Knows validators)
    (hanswer : FactoriesAnswer caller validators yields s) (path : Value) {clause : Value}
    (hadmissible : AdmissibleClause s.store clause) (hknown : s.store.Knows clause) :
    Settles s (MalformedClause s.store validators yields path clause)
      (QuotedClause s.store clause) (compileClause caller validators path clause) := by
  unfold compileClause
  refine Settles.get fun u hu => ?_
  refine settles_compileClauseAt hclosed hvalidators hanswer path _ clause ?_ hadmissible hknown
  have hnests : NestsWithin (ClauseNegates s.store) s.store.depth clause := by
    refine .of_acc ?_ (acc_of_admissibleClause hadmissible)
    rintro outer inner ⟨es, hes, -⟩
    exact exists_address_of_entries? (operatorEntries?_some hes).1
  exact hnests.mono (Nat.add_le_add_right hu.evolves.size_le 2)

/-- What a query negates. -/
def QueryNegates (s : Store) (outer inner : Value) : Prop :=
  ∃ es, s.entries? outer = some es ∧ (.str "$not", inner) ∈ es

theorem acc_of_admissible {s : Store} {spec : Value} (h : Admissible s spec) :
    Acc (fun inner outer => QueryNegates s outer inner) spec := by
  induction h with
  | intro _ _ ih => exact .intro _ fun inner ⟨es, hes, hmem⟩ => ih es inner hes hmem

/-- A malformed entry of a query. -/
def MalformedEntry (s : Store) (validators : Value) (yields : Yield) (e : Value × Value) : Prop :=
  (∃ name, e.1 = .str name ∧ isOperatorName name = true ∧ name ≠ "$not") ∨
    (e.1 = .str "$not" ∧ Malformed s validators yields e.2) ∨
    (e.1 ≠ .str "$not" ∧ MalformedClause s validators yields e.1 e.2)

/-- A mapping is a malformed query when one of its entries is malformed. -/
theorem malformed_iff {s : Store} {spec : Value} {es : Entries} (hes : s.entries? spec = some es) :
    (∃ e ∈ es, MalformedEntry s validators yields e) ↔ Malformed s validators yields spec := by
  constructor
  · rintro ⟨⟨key, clause⟩, hmem, ⟨name, hkey, hname, hnot⟩ | ⟨hkey, hbad⟩ | ⟨hkey, hbad⟩⟩
    · cases hkey
      exact .unknownKey hes hmem hname hnot
    · cases hkey
      exact .negated hes hmem hbad
    · exact .clause hes hmem hkey hbad
  · intro h
    cases h with
    | notAQuery hmapping =>
      rw [Store.isMapping, hes] at hmapping
      cases hmapping
    | unknownKey hfs hmem hname hnot =>
      cases hes.symm.trans hfs
      exact ⟨_, hmem, .inl ⟨_, rfl, hname, hnot⟩⟩
    | negated hfs hmem hbad =>
      cases hes.symm.trans hfs
      exact ⟨_, hmem, .inr (.inl ⟨rfl, hbad⟩)⟩
    | clause hfs hmem hkey hbad =>
      cases hes.symm.trans hfs
      exact ⟨_, hmem, .inr (.inr ⟨hkey, hbad⟩)⟩

/-- A value that an entry of a query writes out when it is refused. -/
def QuotedEntry (s : Store) (e : Value × Value) (x : Value) : Prop :=
  (e.1 = .str "$not" ∧ (Quoted s e.2 x ∨
    (x = e.2 ∧ s.isMapping e.2 = false ∧ s.isCallable e.2 = false))) ∨
  (e.1 ≠ .str "$not" ∧ QuotedClause s e.2 x)

/-- An entry of a query settles whether it is malformed. -/
theorem settles_entry {nested : Value → Action Expression} {key clause : Value}
    (hclosed : s.store.Closed) (hvalidators : s.store.Knows validators)
    (hanswer : FactoriesAnswer caller validators yields s) (hknown : s.store.Knows clause)
    (hadmissible : key ≠ .str "$not" → AdmissibleClause s.store clause)
    (hnested : key = .str "$not" → Settles s (Malformed s.store validators yields clause)
      (Quoted s.store clause) (nested clause)) :
    Settles s (MalformedEntry s.store validators yields (key, clause))
      (QuotedEntry s.store (key, clause))
      (do
        let s := (← get).store
        match key with
        | .str name =>
          if name = Operator.negation then
            if s.isMapping clause || s.isCallable clause then return .not (← nested clause)
            else Action.refuse (.notNested (← Action.ofExcept (s.shown clause)))
          else if isOperatorName name then Action.refuse (.unknownQueryKey name)
          else compileClause caller validators key clause
        | _ => compileClause caller validators key clause) := by
  have hplain : ∀ (hname : ∀ name, key = .str name → isOperatorName name = false)
      (hkey : key ≠ .str "$not"), Settles s (MalformedEntry s.store validators yields (key, clause))
        (QuotedEntry s.store (key, clause)) (compileClause caller validators key clause) := by
    intro hname hkey
    refine (settles_compileClause hclosed hvalidators hanswer key (hadmissible hkey) hknown).congr
      ?_ fun x hx => .inr ⟨hkey, hx⟩
    unfold MalformedEntry
    constructor
    · exact fun h => .inr (.inr ⟨hkey, h⟩)
    · rintro (⟨name, h, hoperator, _⟩ | ⟨h, _⟩ | ⟨_, h⟩)
      · rw [hname name h] at hoperator
        cases hoperator
      · exact absurd h hkey
      · exact h
  refine Settles.get fun u hu => ?_
  dsimp only
  cases key with
  | str name =>
    dsimp only
    split_ifs with hnot hnested' hname
    · have hkey : Value.str name = .str "$not" := congrArg Value.str hnot
      refine ((hnested hkey).map Expression.not).congr ?_ fun x hx => .inl ⟨hkey, .inl hx⟩
      unfold MalformedEntry
      constructor
      · exact fun h => .inr (.inl ⟨hkey, h⟩)
      · rintro (⟨t, h, _, hother⟩ | ⟨_, h⟩ | ⟨h, _⟩)
        · cases h
          exact absurd hnot hother
        · exact h
        · exact absurd hkey h
    · have hkey : Value.str name = .str "$not" := congrArg Value.str hnot
      rw [hu.evolves.isMapping hknown, hu.evolves.isCallable hknown, Bool.or_eq_true,
        not_or, Bool.not_eq_true, Bool.not_eq_true] at hnested'
      have hbad : MalformedEntry s.store validators yields (.str name, clause) :=
        .inr (.inl ⟨hkey, .notAQuery hnested'.1 hnested'.2⟩)
      intro w hw
      rw [Action.execute_bind, Action.execute_ofExcept]
      cases hshown : u.store.shown clause with
      | ok text => exact ⟨hbad, .inl ⟨_, rfl, rfl⟩⟩
      | error err =>
        exact ⟨hbad, .inr ⟨clause, u, .inl ⟨hkey, .inr ⟨rfl, hnested'.1, hnested'.2⟩⟩, hu, hshown⟩⟩
    · exact Settles.refuse (.inl ⟨name, rfl, hname, hnot⟩) rfl
    · refine hplain ?_ fun h => hnot (Value.str.inj h)
      intro t h
      cases h
      simpa using hname
  | _ => exact hplain (fun name h => by cases h) (fun h => by cases h)

/-- What can be called is no mapping. -/
theorem entries?_of_isCallable {s : Store} {v : Value} (h : s.isCallable v = true) :
    s.entries? v = none := by
  unfold Store.entries?
  cases v with
  | ref a =>
    unfold Store.isCallable at h
    dsimp only at h
    revert h
    cases s.view (.ref a) with
    | none => simp
    | some c => cases c <;> simp
  | _ => rfl

/-- A function can be called. -/
theorem isCallable_of_function {s : Store} {a : Address} {f : Function}
    (h : s.cell? a = some (.function f)) : s.isCallable (.ref a) = true := by
  simp only [Store.isCallable, Store.view, h]

/-- A query settles whether it is malformed, within a bound on its negations. -/
theorem settles_compileAt (hclosed : s.store.Closed) (hvalidators : s.store.Knows validators)
    (hanswer : FactoriesAnswer caller validators yields s) :
    ∀ (fuel : Nat) (spec : Value), NestsWithin (QueryNegates s.store) fuel spec →
      Admissible s.store spec → s.store.Knows spec →
      Settles s (Malformed s.store validators yields spec) (Quoted s.store spec)
        (compileAt caller validators fuel spec) := by
  intro fuel
  induction fuel with
  | zero => intro spec hnests; exact hnests.elim
  | succ fuel ih =>
    intro spec hnests hadmissible hknown
    rw [compileAt]
    refine Settles.get fun u hu => ?_
    dsimp only
    rw [hu.evolves.isCallable hknown, hu.entries? hknown]
    cases hcallable : s.store.isCallable spec with
    | true =>
      refine Settles.pure _ fun hbad => ?_
      have hentries := entries?_of_isCallable hcallable
      cases hbad with
      | notAQuery _ hnone =>
        rw [hcallable] at hnone
        cases hnone
      | unknownKey hfs | negated hfs | clause hfs =>
        rw [hentries] at hfs
        cases hfs
    | false =>
      rw [if_neg (by decide)]
      cases hes : s.store.entries? spec with
      | none =>
        exact Settles.refuse (.notAQuery (by rw [Store.isMapping, hes]; rfl) hcallable) rfl
      | some es =>
        obtain ⟨hnegated, hclause⟩ := hadmissible
        refine ((Settles.compileEach (MalformedEntry s.store validators yields)
          (QuotedEntry s.store) fun key clause hmem => ?_).map assemble).congr
          (malformed_iff hes) ?_
        · refine settles_entry hclosed hvalidators hanswer (hclosed.knows_entry hes hmem).2
            (hclause es key clause hes hmem) ?_
          rintro rfl
          exact ih clause (hnests clause ⟨es, hes, hmem⟩) (hnegated es clause hes hmem)
            (hclosed.knows_entry hes hmem).2
        · rintro x ⟨⟨key, clause⟩, hmem, ⟨hkey, hx | ⟨rfl, hmapping, hnone⟩⟩ | ⟨hkey, hx⟩⟩
          · cases hkey
            exact .negated hes hmem hx
          · cases hkey
            exact .notNested hes hmem hmapping hnone
          · exact .clause hes hmem hkey hx

/-- A query settles whether it is malformed. -/
theorem settles_compile (hclosed : s.store.Closed) (hvalidators : s.store.Knows validators)
    (hanswer : FactoriesAnswer caller validators yields s) {spec : Value}
    (hadmissible : Admissible s.store spec) (hknown : s.store.Knows spec) :
    Settles s (Malformed s.store validators yields spec) (Quoted s.store spec)
      (compile caller validators spec) := by
  unfold compile
  refine Settles.get fun u hu => ?_
  refine settles_compileAt hclosed hvalidators hanswer _ spec ?_ hadmissible hknown
  have hnests : NestsWithin (QueryNegates s.store) s.store.depth spec := by
    refine .of_acc ?_ (acc_of_admissible hadmissible)
    rintro outer inner ⟨es, hes, -⟩
    exact exists_address_of_entries? hes
  exact hnests.mono (Nat.add_le_add_right hu.evolves.size_le 2)

end

/-! ## Main statement -/

/-- Malformed queries are refused, and no others: when factories answer and lists of candidates can
be iterated, a query compiles exactly when it is not malformed.  It is refused exactly when it is
malformed, provided that the values which a refusal quotes can be written; and whatever else leaves
compiling is the failure to write such a value. -/
theorem compile_ok_iff_not_malformed {caller : Caller} {validators spec : Value} {yields : Yield}
    {s : State} (hclosed : s.store.Closed) (hspec : s.store.Knows spec)
    (hvalidators : s.store.Knows validators) (hadmissible : Admissible s.store spec)
    (hanswer : FactoriesAnswer caller validators yields s) :
    ((∃ e t, (compile caller validators spec).execute s = (.ok e, t)) ↔
      ¬ Malformed s.store validators yields spec) ∧
    ((∀ x u, Quoted s.store spec x → s.KeepsMappings u → ∃ text, u.store.shown x = .ok text) →
      ((∃ q t, (compile caller validators spec).execute s = (.error (.refusal q), t) ∧
        q.family = .query) ↔ Malformed s.store validators yields spec)) ∧
    ∀ err t, (compile caller validators spec).execute s = (.error err, t) →
      Refuses s (Quoted s.store spec) err := by
  have hsettles := settles_compile hclosed hvalidators hanswer hadmissible hspec s (.refl s)
  cases hrun : (compile caller validators spec).execute s with
  | mk r t =>
    rw [hrun] at hsettles
    cases r with
    | ok e =>
      obtain ⟨hgood, -⟩ := hsettles
      refine ⟨⟨fun _ => hgood, fun _ => ⟨e, t, rfl⟩⟩,
        fun _ => ⟨?_, fun hbad => absurd hbad hgood⟩, ?_⟩
      · rintro ⟨q, u, h, -⟩
        cases h
      · rintro err u h
        cases h
    | error err =>
      obtain ⟨hbad, hrefuses⟩ := hsettles
      refine ⟨⟨?_, fun hgood => absurd hbad hgood⟩,
        fun hwritten => ⟨fun _ => hbad, fun _ => ?_⟩, ?_⟩
      · rintro ⟨e, u, h⟩
        cases h
      · rcases hrefuses with ⟨q, rfl, hfamily⟩ | ⟨x, u, hquoted, hu, hshown⟩
        · exact ⟨q, t, rfl, hfamily⟩
        · obtain ⟨text, htext⟩ := hwritten x u hquoted hu
          rw [hshown] at htext
          cases htext
      · rintro e u h
        cases h
        exact hrefuses

/-- Whether a divisor divides the number at a path of an item: the path, the divisor and the item
are the arguments. -/
def dividesBody : Expr :=
  .binary .equal (.binary .modulo (.get (.arg 2) (.arg 0)) (.arg 1)) (.lit (.int 0))

/-- The factory of an operator for multiples. -/
def dividesFactory : Function := .factory none (.predicate dividesBody)

/-- A query that asks under two negations for a candidate of a number, and for a custom operator
whose factory is registered without its sign. -/
def nestedQuery : State where
  store := { cells := #[
    .dict [(.str "$not", .ref ⟨1⟩), (.str "size", .ref ⟨4⟩)],
    .dict [(.str "age", .ref ⟨2⟩)],
    .dict [(.str "$not", .ref ⟨3⟩)],
    .dict [(.str "$in", .int 3)],
    .dict [(.str "$divides", .int 2)],
    .dict [(.str "divides", .ref ⟨6⟩)],
    .function dividesFactory] }

/-- The only factory of `nestedQuery` makes a predicate of every path and operand. -/
theorem factoriesAnswer_nestedQuery :
    FactoriesAnswer apply (.ref ⟨5⟩) (fun _ _ _ => true) nestedQuery := by
  intro symbol hsome path operand u hu
  have hentries : nestedQuery.store.entries? (.ref ⟨5⟩) = some [(.str "divides", .ref ⟨6⟩)] := rfl
  have hfactory : factoryOf nestedQuery.store (.ref ⟨5⟩) symbol = .ref ⟨6⟩ := by
    unfold factoryOf at hsome ⊢
    rw [hentries] at hsome ⊢
    simp only [Entries.find?_str, Entries.under, Option.getD_some, List.find?_cons,
      List.find?_nil] at hsome ⊢
    cases hown : (Value.str "divides").same (.str symbol) with
    | true => simp
    | false =>
      cases hbare : (Value.str "divides").same (.str (String.ofList symbol.toList.tail)) with
      | true => simp
      | false => simp [hown, hbare] at hsome
  obtain ⟨d, hd, hbecomes⟩ := hu.evolves.cells ⟨6⟩ (.function dividesFactory) rfl
  cases hbecomes
  rw [hfactory]
  refine ⟨.ref ⟨u.store.size⟩, _, ?_,
    u.keepsMappings_alloc (.function (.predicate dividesBody path operand)), ?_⟩
  · unfold apply callDepth applyAt
    dsimp only
    rw [Action.execute_bind_of_ok (Action.execute_cell hd)]
    rfl
  · exact isCallable_of_function (Store.cell?_alloc u.store _)

/-- Nothing in `nestedQuery` negates without end, and what it takes for a list is no list. -/
theorem admissible_nestedQuery : Admissible nestedQuery.store (.ref ⟨0⟩) := by
  have hin : AdmissibleClause nestedQuery.store (.ref ⟨3⟩) :=
    .of_entries (show nestedQuery.store.entries? _ = some [(.str "$in", .int 3)] from rfl)
      (by simp [Store.isUnsteady, Store.view])
  have hnot : AdmissibleClause nestedQuery.store (.ref ⟨2⟩) :=
    .of_entries (show nestedQuery.store.entries? _ = some [(.str "$not", .ref ⟨3⟩)] from rfl)
      (by simpa using hin)
  have hdivides : AdmissibleClause nestedQuery.store (.ref ⟨4⟩) :=
    .of_entries (show nestedQuery.store.entries? _ = some [(.str "$divides", .int 2)] from rfl)
      (by simp)
  have hinner : Admissible nestedQuery.store (.ref ⟨1⟩) :=
    .of_entries (show nestedQuery.store.entries? _ = some [(.str "age", .ref ⟨2⟩)] from rfl)
      (by simpa using hnot)
  exact .of_entries
    (show nestedQuery.store.entries? _ =
      some [(.str "$not", .ref ⟨1⟩), (.str "size", .ref ⟨4⟩)] from rfl)
    (by simpa using ⟨hinner, hdivides⟩)

/-- `nestedQuery` is malformed under its second negation, and does not compile. -/
theorem compile_nestedQuery :
    ¬ ∃ e t, (compile apply (.ref ⟨5⟩) (.ref ⟨0⟩)).execute nestedQuery = (.ok e, t) := by
  have hin : MalformedClause nestedQuery.store (.ref ⟨5⟩) (fun _ _ _ => true) (.str "age")
      (.ref ⟨3⟩) :=
    .notAList rfl List.mem_cons_self (.inr (.inr (.inr rfl)))
  have hmalformed : Malformed nestedQuery.store (.ref ⟨5⟩) (fun _ _ _ => true) (.ref ⟨0⟩) :=
    .negated rfl List.mem_cons_self (.clause rfl List.mem_cons_self (by simp)
      (.negated rfl List.mem_cons_self hin))
  have hiff := (compile_ok_iff_not_malformed (by decide) (by decide) (by decide)
    admissible_nestedQuery factoriesAnswer_nestedQuery).1
  exact fun hcompiles => hiff.mp hcompiles hmalformed

/-- A query that negates a number of more digits than are written. -/
def hugeNegation : State where
  store := { cells := #[.dict [(.str "$not", .int (Int.ofNat (Nat.pow 10 Text.digitLimit)))]] }

/-- A number is no query, so `hugeNegation` is malformed; but what leaves compiling is no refusal:
the number that it quotes can not be written. -/
theorem compile_hugeNegation :
    Malformed hugeNegation.store .null (fun _ _ _ => true) (.ref ⟨0⟩) ∧
      ∃ err, ((compile apply .null (.ref ⟨0⟩)).execute hugeNegation).1 = .error err ∧
        err = .fault .value :=
  ⟨.negated rfl List.mem_cons_self (.notAQuery rfl rfl), by decide +kernel⟩

end Recordset.Query
