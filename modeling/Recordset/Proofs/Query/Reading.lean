import Mathlib.Tactic.SplitIfs
import Recordset.Proofs.Query.Optimize
import Recordset.Script.Eval
set_option autoImplicit false

/-!
# Reading queries

What a query says, read off the query itself: no expression is built, nothing is merged or dropped,
and nothing is checked.  A predicate says what it answers.  A mapping says that all of its entries
hold, asked for in their order and up to the first that does not.  An entry negates a query on the
whole item, or puts a clause to the value at its path.  A clause is a pattern to be found, an object
of operators, or a value to be equal to.

Custom operators are made, and candidates listed, while a query is read, once for all items; what
has been read is then asked of an item at an index (`Meaning`).

`Query.test_eq_of_compile` is the main statement: a query that compiles means what it says.
-/

namespace Recordset.Query

/-- What a query asks of an item at an index. -/
abbrev Meaning := Value → Int → Action Bool

namespace Meaning

/-- Asks for nothing. -/
def always : Meaning := fun _ _ => return true

/-- Asks for one thing, and for another one when the first holds. -/
def both (first second : Meaning) : Meaning := fun item index => do
  if ← first item index then second item index else return false

/-- Asks for the opposite. -/
def opposite (m : Meaning) : Meaning := fun item index => return !(← m item index)

/-- Asks for something of the value at a path, which may be missing. -/
def ofValue (path : Value) (holds : Store → Value → Except Error Bool) : Meaning :=
  fun item _ => do
    let v ← Path.value item path
    Action.look fun s => holds s v

/-- Asks a predicate about the whole item. -/
def ofPredicate (predicate : Value) (caller : Caller) : Meaning := fun item _ => do
  Expression.truthOf (← caller predicate [item])

/-- Asks a predicate of the caller about the item, and its index when it takes two arguments. -/
def ofCallable (f : Value) (caller : Caller) : Meaning := fun item index => do
  Expression.truthOf (← Callback.call caller f 2 [item, .int index])

end Meaning

/-- Reads the entries of a mapping one after another, and asks for all of them. -/
def readAll (read : Value → Value → Action Meaning) : Entries → Action Meaning
  | [] => return .always
  | (key, v) :: rest => do
    let first ← read key v
    let others ← readAll read rest
    return first.both others

/-- What a symbol says of a value and an operand; none when it is no symbol for a comparison. -/
def comparison? (operand : Value) (symbol : String) : Option (Store → Value → Except Error Bool) :=
  match symbol with
  | "$eq" => some fun s v => .ok (Operator.strictEqual s v operand)
  | "$gt" => some fun s v => Operator.ordered s .greater v operand
  | "$gte" => some fun s v => Operator.ordered s .greaterEqual v operand
  | "$lt" => some fun s v => Operator.ordered s .less v operand
  | "$lte" => some fun s v => Operator.ordered s .lessEqual v operand
  | "$contains" => some fun s v => Operator.holds s v operand
  | "$includes" => some fun s v => Operator.holds s v operand
  | _ => none

/-- Some of the candidates that a list holds is equal to a value that is there. -/
def isCandidate (list : Value) (s : Store) (v : Value) : Except Error Bool :=
  if v.isMissing then .ok false
  else (s.elements list).map fun xs => xs.any fun x => Operator.strictEqual s v x

/-- The factory under a symbol, or else under the symbol without its sign; null without any. -/
def factoryOf (s : Store) (validators : Value) (symbol : String) : Value :=
  let es := (s.entries? validators).getD []
  match Entries.find? s es (.str symbol) with
  | some f => f
  | none => (Entries.find? s es (.str (String.ofList symbol.toList.tail))).getD .null

/-- The entries of a mapping that has some and all of whose keys are names of operators. -/
def operatorEntries? (s : Store) (clause : Value) : Option Entries :=
  ((s.entries? clause).getD []) |> fun es =>
    if es ≠ [] ∧ ∀ e ∈ es, isOperatorKey e.1 then some es else none

section

variable (caller : Caller) (validators : Value)

/-- Reads an operator other than a negation: the candidates are listed, and the predicate of a
custom operator is made from the path and the operand. -/
def readOperator (path : Value) (symbol : String) (operand : Value) : Action Meaning :=
  match comparison? operand symbol with
  | some holds => return .ofValue path holds
  | none => do
    if symbol = "$in" then
      let list ← Action.make (.list (← Action.iterate operand))
      return .ofValue path (isCandidate list)
    else
      let factory := factoryOf (← get).store validators symbol
      let predicate ← caller factory [path, operand]
      return .ofPredicate predicate caller

/-- Reads an entry of an object of operators; `nested` reads the clause that an entry negates. -/
def readCondition (path : Value) (nested : Value → Action Meaning) (key operand : Value) :
    Action Meaning :=
  match key with
  | .str symbol => do
    if symbol = "$not" then return (← nested operand).opposite
    else readOperator caller validators path symbol operand
  | _ => Action.fault .type

/-- Reads the clause for one path. -/
def readClauseAt (path : Value) : Nat → Value → Action Meaning
  | 0, _ => Action.fault .recursion
  | depth + 1, clause =>
    match clause with
    | .pattern p => return .ofValue path fun _ v => .ok (v.str?.any p.foundIn)
    | _ => do
      match operatorEntries? (← get).store clause with
      | none => return .ofValue path fun s v => .ok (Operator.strictEqual s v clause)
      | some es => readAll (readCondition caller validators path (readClauseAt path depth)) es

/-- Reads the clause for one path. -/
def readClause (path clause : Value) : Action Meaning := do
  readClauseAt caller validators path (← get).store.depth clause

/-- Reads an entry of a query; `nested` reads the query that an entry negates. -/
def readEntry (nested : Value → Action Meaning) (key clause : Value) : Action Meaning := do
  if key.str? = some "$not" then return (← nested clause).opposite
  else readClause caller validators key clause

/-- Reads a query. -/
def readAt : Nat → Value → Action Meaning
  | 0, _ => Action.fault .recursion
  | depth + 1, spec => do
    let s := (← get).store
    if s.isCallable spec then return .ofCallable spec caller
    else readAll (readEntry caller validators (readAt depth)) ((s.entries? spec).getD [])

/-- Reads a query. -/
def read (spec : Value) : Action Meaning := do
  readAt caller validators (← get).store.depth spec

end

/-! ## Compiling follows the reading -/

section

variable (caller : Caller) (validators : Value)

/-- Whenever compiling succeeds, reading does, with the same effects, and what has been read asks
the same of every item at every index as the compiled expression. -/
def Follows (compiled : Action Expression) (reading : Action Meaning) : Prop :=
  ∀ {s t : State} {e : Expression}, compiled.execute s = (.ok e, t) →
    ∃ m : Meaning, reading.execute s = (.ok m, t) ∧
      ∀ item index, e.test caller item index = m item index

/-- Entries that are compiled as they are read all hold together when they are read together. -/
theorem testAll_eq_of_compileEach {compile : Value → Value → Action Expression}
    (read : Value → Value → Action Meaning)
    (hfollows : ∀ key v, Follows caller (compile key v) (read key v)) :
    ∀ {es : Entries} {s t : State} {parts : List Expression},
      (compileEach compile es).execute s = (.ok parts, t) →
      ∃ m : Meaning, (readAll read es).execute s = (.ok m, t) ∧
        ∀ item index, Expression.testAll caller item index parts = m item index := by
  intro es
  induction es with
  | nil =>
    intro s t parts h
    cases h
    exact ⟨.always, rfl, fun item index => Expression.testAll_nil caller item index⟩
  | cons entry rest ih =>
    intro s t parts h
    obtain ⟨key, v⟩ := entry
    obtain ⟨e, s₁, hfirst, h⟩ := Action.execute_bind_ok h
    obtain ⟨es, s₂, hrest, h⟩ := Action.execute_bind_ok h
    cases h
    obtain ⟨m, hm, htest⟩ := hfollows key v hfirst
    obtain ⟨ms, hms, htests⟩ := ih hrest
    refine ⟨m.both ms, ?_, ?_⟩
    · rw [readAll, Action.execute_bind_of_ok hm, Action.execute_bind_of_ok hms]
      rfl
    · intro item index
      rw [Expression.testAll_cons, htest, htests]
      rfl

variable {caller validators}

/-- Negating what has been compiled negates what has been read. -/
theorem follows_not {compiled : Action Expression} {reading : Action Meaning}
    (hfollows : Follows caller compiled reading) :
    Follows caller (do return .not (← compiled)) (do return (← reading).opposite) := by
  intro s t e h
  obtain ⟨inner, s₁, hinner, h⟩ := Action.execute_bind_ok h
  cases h
  obtain ⟨m, hm, htest⟩ := hfollows hinner
  refine ⟨m.opposite, ?_, ?_⟩
  · rw [Action.execute_bind_of_ok hm]
    rfl
  · intro item index
    rw [Expression.test, htest]
    rfl

/-- An operator of the query language other than the one for candidates says the same of a value
when it is read and when it is tested, and keeps its operand as it is. -/
theorem comparison?_of_ofSymbol? {symbol : String} {op : Operator}
    (h : Operator.ofSymbol? symbol = some op) (hop : op ≠ .oneOf) (operand : Value) :
    comparison? operand symbol = some (fun s v => op.test s v operand) ∧
      op.prepare operand = pure operand := by
  unfold Operator.ofSymbol? at h
  obtain ⟨entry, hfind, rfl⟩ := Option.map_eq_some_iff.mp h
  have hmem := List.mem_of_find?_eq_some hfind
  have hsymbol : entry.1 = symbol := by simpa using List.find?_some hfind
  subst hsymbol
  simp only [Operator.symbols, List.mem_cons, List.not_mem_nil, or_false] at hmem
  rcases hmem with rfl | rfl | rfl | rfl | rfl | rfl | rfl | rfl
  case inr.inr.inr.inr.inr.inl => exact absurd rfl hop
  all_goals exact ⟨rfl, rfl⟩

/-- A symbol that is no operator of the query language is neither read as a comparison nor as the
operator for candidates. -/
theorem comparison?_of_ofSymbol?_none {symbol : String} (h : Operator.ofSymbol? symbol = none)
    (operand : Value) : comparison? operand symbol = none ∧ symbol ≠ "$in" := by
  constructor
  · unfold comparison?
    split
    case h_8 => rfl
    all_goals exact absurd h (by decide +kernel)
  · rintro rfl
    exact absurd h (by decide +kernel)

/-- The symbol for candidates is no symbol for a comparison. -/
theorem comparison?_in (operand : Value) : comparison? operand "$in" = none := by
  unfold comparison?
  split
  case h_8 => rfl
  all_goals simp_all

/-- The only symbol of the operator for candidates. -/
theorem eq_in_of_ofSymbol? {symbol : String} (h : Operator.ofSymbol? symbol = some .oneOf) :
    symbol = "$in" := by
  obtain ⟨entry, hfind, hentry⟩ := Option.map_eq_some_iff.mp h
  have hmem := List.mem_of_find?_eq_some hfind
  have hsymbol : entry.1 = symbol := by simpa using List.find?_some hfind
  subst hsymbol
  simp only [Operator.symbols, List.mem_cons, List.not_mem_nil, or_false] at hmem
  rcases hmem with rfl | rfl | rfl | rfl | rfl | rfl | rfl | rfl
  case inr.inr.inr.inr.inr.inl => rfl
  all_goals cases hentry

/-- All operands but lists of candidates are kept as they are. -/
theorem prepare_of_ne_oneOf {op : Operator} (hop : op ≠ .oneOf) (operand : Value) :
    op.prepare operand = pure operand := by
  cases op with
  | oneOf => exact absurd rfl hop
  | _ => rfl

/-- The candidates that a query keeps are the elements of its operand, in a list of their own. -/
theorem prepare_oneOf_ok {operand kept : Value} {s t : State}
    (h : (Operator.oneOf.prepare operand).execute s = (.ok kept, t)) :
    (do Action.make (.list (← Action.iterate operand)) : Action Value).execute s =
      (.ok kept, t) := by
  unfold Operator.prepare at h
  rw [Action.execute_get_bind] at h
  dsimp only at h
  split_ifs at h with hrefused
  · simp at h
  · exact h

/-- The factory that is called when a query is compiled is the one that is found when it is read. -/
theorem factory?_ok {symbol : String} {f : Value} {s t : State}
    (h : (factory? symbol validators).execute s = (.ok (some f), t)) :
    t = s ∧ factoryOf s.store validators symbol = f := by
  unfold factory? at h
  rw [Action.execute_get_bind] at h
  unfold factoryOf
  cases hes : s.store.entries? validators with
  | none => simp [hes] at h
  | some es =>
    simp only [hes] at h
    simp only [Option.getD_some]
    cases hfound : Entries.find? s.store es (.str symbol) with
    | some g =>
      simp only [hfound] at h
      cases g <;> simp_all
    | none =>
      simp only [hfound, ← List.drop_one] at h ⊢
      generalize Entries.find? s.store es (.str (String.ofList (symbol.toList.drop 1))) = bare
        at h ⊢
      cases bare with
      | none => simp at h
      | some g => cases g <;> simp_all

/-- A custom operator asks the predicate that its factory made from the path and the operand. -/
theorem follows_customTerm {path operand : Value} {symbol : String}
    (h : Operator.ofSymbol? symbol = none) :
    Follows caller (customTerm caller validators path symbol operand)
      (readOperator caller validators path symbol operand) := by
  intro s t e hcompiled
  unfold customTerm at hcompiled
  obtain ⟨found, s₁, hfactory, hrest⟩ := Action.execute_bind_ok hcompiled
  cases found with
  | none => simp at hrest
  | some f =>
    obtain ⟨rfl, hfound⟩ := factory?_ok hfactory
    obtain ⟨predicate, s₂, hcall, hmade⟩ := Action.execute_bind_ok hrest
    rw [Action.execute_get_bind] at hmade
    dsimp only at hmade
    split_ifs at hmade with hcallable
    · cases hmade
      obtain ⟨hnone, hin⟩ := comparison?_of_ofSymbol?_none h operand
      refine ⟨.ofPredicate predicate caller, ?_, ?_⟩
      · unfold readOperator
        rw [hnone]
        dsimp only
        rw [if_neg hin, Action.execute_get_bind, hfound, Action.execute_bind_of_ok hcall]
        rfl
      · intro item index
        rw [Expression.test]
        rfl
    · simp at hmade

/-- An operator of the query language asks the same of the value at its path. -/
theorem follows_term {path operand : Value} {symbol : String} {op : Operator}
    (h : Operator.ofSymbol? symbol = some op) :
    Follows caller (do return .term path op (← op.prepare operand))
      (readOperator caller validators path symbol operand) := by
  intro s t e hcompiled
  obtain ⟨kept, s₁, hprepare, hcompiled⟩ := Action.execute_bind_ok hcompiled
  cases hcompiled
  by_cases hop : op = .oneOf
  · subst hop
    obtain rfl := eq_in_of_ofSymbol? h
    obtain ⟨xs, s₂, hiterate, hmake⟩ := Action.execute_bind_ok (prepare_oneOf_ok hprepare)
    refine ⟨.ofValue path (isCandidate kept), ?_, ?_⟩
    · unfold readOperator
      rw [comparison?_in]
      dsimp only
      rw [if_pos rfl, Action.execute_bind_of_ok hiterate, Action.execute_bind_of_ok hmake]
      rfl
    · intro item index
      rw [Expression.test]
      rfl
  · obtain ⟨hcomparison, hkept⟩ := comparison?_of_ofSymbol? h hop operand
    rw [hkept] at hprepare
    cases hprepare
    refine ⟨.ofValue path fun s v => op.test s v operand, ?_, ?_⟩
    · unfold readOperator
      rw [hcomparison]
      rfl
    · intro item index
      rw [Expression.test]
      rfl

/-- A clause is compiled as an object of operators exactly when it is read as one. -/
theorem operators?_ok {clause : Value} {found : Option Entries} {s t : State}
    (h : (operators? clause).execute s = (.ok found, t)) :
    t = s ∧ operatorEntries? s.store clause = found := by
  unfold operators? at h
  rw [Action.execute_get_bind] at h
  dsimp only at h
  unfold operatorEntries?
  cases hes : s.store.entries? clause with
  | none =>
    simp only [hes] at h
    cases h
    simp
  | some es =>
    simp only [hes] at h
    simp only [Option.getD_some]
    split_ifs at h with hplain hall
    · cases h
      refine ⟨rfl, if_neg ?_⟩
      rintro ⟨hne, hkeys⟩
      obtain ⟨entry, hentry⟩ := List.exists_mem_of_ne_nil es hne
      simp only [Bool.not_eq_true', List.any_eq_false] at hplain
      exact hplain entry hentry (hkeys entry hentry)
    · cases h
      refine ⟨rfl, if_pos ⟨?_, by simpa using hall⟩⟩
      rintro rfl
      simp at hplain
    · obtain ⟨keys, s₁, _, hrefused⟩ := Action.execute_bind_ok h
      simp at hrefused

/-- A clause asks for what it says of the value at its path. -/
theorem follows_compileClauseAt (path : Value) :
    ∀ (depth : Nat) (clause : Value),
      Follows caller (compileClauseAt caller validators path depth clause)
        (readClauseAt caller validators path depth clause) := by
  intro depth
  induction depth with
  | zero =>
    intro clause s t e h
    simp [compileClauseAt] at h
  | succ depth ih =>
    intro clause s t e h
    by_cases hpattern : ∃ p, clause = .pattern p
    · obtain ⟨p, rfl⟩ := hpattern
      rw [compileClauseAt] at h
      cases h
      refine ⟨.ofValue path fun _ v => .ok (v.str?.any p.foundIn), by rw [readClauseAt]; rfl, ?_⟩
      intro item index
      rw [Expression.test]
      unfold Meaning.ofValue
      congr 1
      funext v
      cases v <;> rfl
    · have hplain : ∀ p, clause = .pattern p → False := fun p hp => hpattern ⟨p, hp⟩
      rw [compileClauseAt.eq_3 _ _ _ _ _ hplain] at h
      obtain ⟨found, s₁, hoperators, hrest⟩ := Action.execute_bind_ok h
      obtain ⟨rfl, hfound⟩ := operators?_ok hoperators
      rw [readClauseAt.eq_3 _ _ _ _ _ hplain, Action.execute_get_bind, hfound]
      cases found with
      | none =>
        cases hrest
        refine ⟨.ofValue path fun s v => .ok (Operator.strictEqual s v clause), rfl, ?_⟩
        intro item index
        rw [Expression.test]
        rfl
      | some es =>
        obtain ⟨parts, s₂, hparts, hmade⟩ := Action.execute_bind_ok hrest
        cases hmade
        refine Exists.elim (testAll_eq_of_compileEach caller
          (readCondition caller validators path (readClauseAt caller validators path depth)) ?entry
          hparts) ?found
        case found =>
          rintro m ⟨hm, htests⟩
          refine ⟨m, hm, fun item index => ?_⟩
          rw [test_conjunction, htests]
        case entry =>
          intro key operand s t e hentry
          unfold readCondition
          split at hentry
          · rename_i symbol
            by_cases hnot : symbol = "$not"
            · rw [if_pos (show symbol = Operator.negation from hnot)] at hentry
              simp only [if_pos hnot]
              exact follows_not (ih operand) hentry
            · rw [if_neg (show ¬ symbol = Operator.negation from hnot)] at hentry
              simp only [if_neg hnot]
              cases hop : Operator.ofSymbol? symbol with
              | some op =>
                rw [hop] at hentry
                exact follows_term hop hentry
              | none =>
                rw [hop] at hentry
                exact follows_customTerm hop hentry
          · simp at hentry

/-- A clause is compiled as it is read. -/
theorem follows_compileClause (path clause : Value) :
    Follows caller (compileClause caller validators path clause)
      (readClause caller validators path clause) := by
  intro s t e h
  unfold compileClause at h
  unfold readClause
  rw [Action.execute_get_bind] at h ⊢
  exact follows_compileClauseAt path s.store.depth clause h

/-- A query asks for what it says. -/
theorem follows_compileAt :
    ∀ (depth : Nat) (spec : Value),
      Follows caller (compileAt caller validators depth spec)
        (readAt caller validators depth spec) := by
  intro depth
  induction depth with
  | zero =>
    intro spec s t e h
    simp [compileAt] at h
  | succ depth ih =>
    intro spec s t e h
    rw [compileAt, Action.execute_get_bind] at h
    rw [readAt, Action.execute_get_bind]
    dsimp only at h ⊢
    split_ifs at h ⊢ with hcallable
    · cases h
      refine ⟨.ofCallable spec caller, rfl, fun item index => ?_⟩
      rw [Expression.test]
      rfl
    · cases hes : s.store.entries? spec with
      | none => simp [hes] at h
      | some es =>
        rw [hes] at h
        obtain ⟨parts, s₁, hparts, hmade⟩ := Action.execute_bind_ok h
        cases hmade
        refine Exists.elim (testAll_eq_of_compileEach caller
          (readEntry caller validators (readAt caller validators depth)) ?entry hparts) ?found
        case found =>
          rintro m ⟨hm, htests⟩
          refine ⟨m, hm, fun item index => ?_⟩
          rw [test_assemble, htests]
        case entry =>
          intro key clause s t e hentry
          rw [Action.execute_get_bind] at hentry
          unfold readEntry
          split at hentry
          · rename_i name
            by_cases hnot : name = Operator.negation
            · have hkey : (Value.str name).str? = some "$not" := congrArg some hnot
              rw [if_pos hkey]
              rw [if_pos hnot] at hentry
              split_ifs at hentry with hnested
              · exact follows_not (ih clause) hentry
              · obtain ⟨shown, s₂, _, hrefused⟩ := Action.execute_bind_ok hentry
                simp at hrefused
            · have hkey : ¬ (Value.str name).str? = some "$not" := fun h => hnot (Option.some.inj h)
              rw [if_neg hkey]
              rw [if_neg hnot] at hentry
              split_ifs at hentry with hname
              · simp at hentry
              · exact follows_compileClause _ clause hentry
          · rename_i hkey
            have hother : ¬ key.str? = some "$not" := by
              cases key <;> simp_all [Value.str?]
            rw [if_neg hother]
            exact follows_compileClause _ clause hentry

end

/-! ## Main statement -/

/-- A query that compiles means what it says: reading it succeeds with the same effects, and for
every item at every index testing the compiled expression is the very action that the query read
asks for.  So both call the same predicates with the same arguments in the same order, stop at the
same entry, and give the same answer or the same error. -/
theorem test_eq_of_compile {caller : Caller} {validators spec : Value} {s t : State}
    {e : Expression} (h : (compile caller validators spec).execute s = (.ok e, t)) :
    ∃ m : Meaning, (read caller validators spec).execute s = (.ok m, t) ∧
      ∀ (item : Value) (index : Int), e.test caller item index = m item index := by
  unfold compile at h
  unfold read
  rw [Action.execute_get_bind] at h ⊢
  exact follows_compileAt s.store.depth spec h

/-- A query that negates another one and puts an object of two operators, one of them a custom one,
to a path. -/
def mixedQuery : State where
  store := { cells := #[
    .dict [(.str "$not", .ref ⟨1⟩), (.str "age", .ref ⟨2⟩)],
    .dict [(.str "name", .str "Ada")],
    .dict [(.str "$in", .ref ⟨3⟩), (.str "$even", .int 2)],
    .list [.int 36, .int 40],
    .dict [(.str "even", .ref ⟨5⟩)],
    .function (.factory none (.predicate (.binary .equal (.arg 1) (.lit (.int 2)))))] }

/-- The query of `mixedQuery` compiles, and means what it says. -/
theorem test_mixedQuery :
    ∃ (e : Expression) (t : State) (m : Meaning),
      (compile apply (.ref ⟨4⟩) (.ref ⟨0⟩)).execute mixedQuery = (.ok e, t) ∧
      (read apply (.ref ⟨4⟩) (.ref ⟨0⟩)).execute mixedQuery = (.ok m, t) ∧
      ∀ (item : Value) (index : Int), e.test apply item index = m item index := by
  have hcompiles : ((compile apply (.ref ⟨4⟩) (.ref ⟨0⟩)).execute mixedQuery).1.isOk = true := by
    decide +kernel
  cases hcompile : (compile apply (.ref ⟨4⟩) (.ref ⟨0⟩)).execute mixedQuery with
  | mk r t =>
    rw [hcompile] at hcompiles
    cases r with
    | error e => cases hcompiles
    | ok e =>
      obtain ⟨m, hread, htest⟩ := test_eq_of_compile hcompile
      exact ⟨e, t, m, rfl, hread, htest⟩

end Recordset.Query
