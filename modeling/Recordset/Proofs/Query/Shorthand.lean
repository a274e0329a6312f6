import Recordset.Proofs.Made
import Recordset.Proofs.Query.Malformed
import Recordset.Query.Shorthand
set_option autoImplicit false

/-!
# Shorthand queries compile to one term

A shorthand makes a query that asks for one operator at one path (`Query.IsSingle`).  It compiles to
one term, and its negation to the negation of the term.  A path that starts with the sign of
operators is no path in a query, and is refused.
-/

namespace Recordset.Query

variable {caller : Caller} {validators spec operand : Value} {path symbol : String}
  {op : Operator} {s t : State}

/-- A query that asks for one operator at one path. -/
def IsSingle (s : Store) (spec : Value) (path symbol : String) (operand : Value) : Prop :=
  ∃ q r, spec = .ref r ∧ s.cell? r = some (.dict [(.str path, .ref q)]) ∧
    s.cell? q = some (.dict [(.str symbol, operand)])

theorem IsSingle.grows (h : IsSingle s.store spec path symbol operand) (ht : s.Grows t) :
    IsSingle t.store spec path symbol operand := by
  obtain ⟨q, r, rfl, hr, hq⟩ := h
  exact ⟨q, r, rfl, ht.cells _ _ hr, ht.cells _ _ hq⟩

/-- The query of a shorthand is made, and nothing else changes. -/
theorem single_ok (path symbol : String) (operand : Value) (s : State) :
    ∃ spec t, (single (.str path) symbol operand).execute s = (.ok spec, t) ∧ s.Later t ∧
      t.store.size = s.store.size + 2 ∧ IsSingle t.store spec path symbol operand := by
  obtain ⟨q, t, hclause, ht, hsize, hq⟩ := s.make_ok (.dict [(.str symbol, operand)])
  obtain ⟨r, u, hspec, hu, hsize', hr⟩ := t.make_ok (.dict [(.str path, .ref q)])
  refine ⟨.ref r, u, ?_, ht.trans hu, by omega, q, r, rfl, hr, hu.grows.cells _ _ hq⟩
  unfold single
  rw [Action.execute_get_bind]
  dsimp only
  rw [if_pos (show s.store.isKey (.str path) = true from rfl), Action.execute_bind_of_ok hclause,
    hspec]

/-- The symbols of the language are names of operators, and not the one that negates. -/
theorem isOperatorName_of_ofSymbol? (h : Operator.ofSymbol? symbol = some op) :
    isOperatorName symbol = true ∧ symbol ≠ Operator.negation := by
  unfold Operator.ofSymbol? at h
  obtain ⟨entry, hentry, -⟩ := Option.map_eq_some_iff.mp h
  have hmem := List.mem_of_find?_eq_some hentry
  have hname := List.find?_some hentry
  obtain rfl : entry.1 = symbol := by simpa using hname
  have hall : ∀ e ∈ Operator.symbols, isOperatorName e.1 = true ∧ e.1 ≠ Operator.negation := by
    decide +kernel
  exact hall entry hmem

/-- One entry compiles on its own. -/
theorem compileEach_singleton (f : Value → Value → Action Expression) (key v : Value) :
    compileEach f [(key, v)] = (do return [← f key v]) := by
  simp [compileEach]

/-- What an operator compiles to; `fuel` bounds the nesting of a clause that it negates. -/
def compileOperator (caller : Caller) (validators path : Value) (fuel : Nat) (symbol : String)
    (operand : Value) : Action Expression := do
  if symbol = Operator.negation then
    return .not (← compileClauseAt caller validators path fuel operand)
  else
    match Operator.ofSymbol? symbol with
    | some op => return .term path op (← op.prepare operand)
    | none => customTerm caller validators path symbol operand

/-- An object of one operator compiles to what that operator compiles to. -/
theorem execute_compileClauseAt_single {q : Address} {path : Value}
    (hcell : s.store.cell? q = some (.dict [(.str symbol, operand)]))
    (hsymbol : isOperatorName symbol = true) (fuel : Nat) :
    (compileClauseAt caller validators path (fuel + 1) (.ref q)).execute s =
      (compileOperator caller validators path fuel symbol operand).execute s := by
  have hentries : s.store.entries? (.ref q) = some [(.str symbol, operand)] := by
    simp [Store.entries?, Store.view, hcell]
  have hoperators : (operators? (.ref q)).execute s =
      (.ok (some [(.str symbol, operand)]), s) := by
    have hkey : isOperatorKey (.str symbol) = true := hsymbol
    unfold operators?
    rw [Action.execute_get_bind]
    simp [hentries, hkey]
  rw [compileClauseAt.eq_3 _ _ _ _ _ (fun p hp => by cases hp),
    Action.execute_bind_of_ok hoperators]
  dsimp only
  rw [compileEach_singleton]
  simp only [bind_assoc, pure_bind, conjunction, bind_pure]
  rfl

/-- A query with one entry compiles to what that entry compiles to. -/
theorem execute_compileAt_single {r : Address} {name : String} {clause : Value}
    (hcell : s.store.cell? r = some (.dict [(.str name, clause)])) (fuel : Nat) :
    (compileAt caller validators (fuel + 1) (.ref r)).execute s =
      (if name = Operator.negation then
          if s.store.isMapping clause || s.store.isCallable clause then
            do return .not (← compileAt caller validators fuel clause)
          else do Action.refuse (.notNested (← Action.ofExcept (s.store.shown clause)))
        else if isOperatorName name then Action.refuse (.unknownQueryKey name)
        else compileClause caller validators (.str name) clause : Action Expression).execute s := by
  have hentries : s.store.entries? (.ref r) = some [(.str name, clause)] := by
    simp [Store.entries?, Store.view, hcell]
  have hcallable : s.store.isCallable (.ref r) = false := by
    simp [Store.isCallable, Store.view, hcell]
  rw [compileAt, Action.execute_get_bind]
  dsimp only
  rw [hcallable, hentries, if_neg Bool.false_ne_true]
  dsimp only
  rw [compileEach_singleton]
  simp only [bind_assoc, pure_bind, assemble, bind_pure]
  rw [Action.execute_get_bind]

theorem ne_negation_of_path (hpath : isOperatorName path = false) : path ≠ Operator.negation := by
  rintro rfl
  exact absurd hpath (by decide)

/-- The query of a shorthand compiles to what its operator compiles to. -/
theorem execute_compileAt_shorthand (hspec : IsSingle s.store spec path symbol operand)
    (hpath : isOperatorName path = false) (hsymbol : isOperatorName symbol = true) (fuel : Nat) :
    (compileAt caller validators (fuel + 1) spec).execute s =
      (compileOperator caller validators (.str path) (s.store.size + 1) symbol operand).execute
        s := by
  obtain ⟨q, r, rfl, hr, hq⟩ := hspec
  rw [execute_compileAt_single hr, if_neg (ne_negation_of_path hpath), hpath,
    if_neg Bool.false_ne_true]
  unfold compileClause
  rw [Action.execute_get_bind]
  exact execute_compileClauseAt_single hq hsymbol (s.store.size + 1)

/-- The query of a shorthand for a comparison compiles to one term. -/
theorem execute_compileAt_term (hspec : IsSingle s.store spec path symbol operand)
    (hpath : isOperatorName path = false) (hop : Operator.ofSymbol? symbol = some op)
    (fuel : Nat) :
    (compileAt caller validators (fuel + 1) spec).execute s =
      (do return .term (.str path) op (← op.prepare operand) : Action Expression).execute s := by
  obtain ⟨hsymbol, hnot⟩ := isOperatorName_of_ofSymbol? hop
  rw [execute_compileAt_shorthand hspec hpath hsymbol]
  unfold compileOperator
  rw [if_neg hnot, hop]

/-- A path that starts with the sign of operators is refused, also where it is the sign for
negation: then the symbol is no key of the query that is negated. -/
theorem execute_compile_operatorPath (caller : Caller) (validators : Value)
    (hspec : IsSingle s.store spec path symbol operand)
    (hpath : isOperatorName path = true) (hop : Operator.ofSymbol? symbol = some op) :
    ∃ q, (compile caller validators spec).execute s = (.error (.refusal q), s) ∧
      q.family = .query := by
  obtain ⟨hsymbol, hnot⟩ := isOperatorName_of_ofSymbol? hop
  obtain ⟨q, r, rfl, hr, hq⟩ := hspec
  unfold compile Store.depth
  rw [Action.execute_get_bind, execute_compileAt_single hr]
  by_cases hname : path = Operator.negation
  · have hmapping : s.store.isMapping (.ref q) = true := by
      simp [Store.isMapping, Store.entries?, Store.view, hq]
    have hrefused : (compileAt caller validators (s.store.size + 1) (.ref q)).execute s =
        (.error (.refusal (.unknownQueryKey symbol)), s) := by
      rw [execute_compileAt_single hq, if_neg hnot, if_pos hsymbol]
      rfl
    refine ⟨.unknownQueryKey symbol, ?_, rfl⟩
    rw [if_pos hname, hmapping, Bool.true_or, if_pos rfl, Action.execute_bind_of_error hrefused]
  · refine ⟨.unknownQueryKey path, ?_, rfl⟩
    rw [if_neg hname, if_pos hpath]
    rfl

/-! ## Negations -/

/-- A value that stands for itself in a clause: neither a pattern nor a mapping with the name of an
operator among its keys. -/
def IsLiteral (s : Store) (v : Value) : Prop :=
  (∀ p, v ≠ .pattern p) ∧ ∀ es, s.entries? v = some es → ∀ e ∈ es, isOperatorKey e.1 = false

theorem IsLiteral.later {v : Value} (h : IsLiteral s.store v) (ht : s.Later t) (hv : s.Made v) :
    IsLiteral t.store v := by
  refine ⟨h.1, fun es hes => h.2 es ?_⟩
  unfold Store.entries? at hes ⊢
  rwa [ht.view hv] at hes

/-- A literal compiles to equality. -/
theorem execute_compileClauseAt_literal {v path : Value} (h : IsLiteral s.store v) (fuel : Nat) :
    (compileClauseAt caller validators path (fuel + 1) v).execute s =
      (.ok (.term path .equal v), s) := by
  have hnone : operatorEntries? s.store v = none := by
    unfold operatorEntries?
    refine if_neg ?_
    rintro ⟨hne, hkeys⟩
    cases hes : s.store.entries? v with
    | none => simp [hes] at hne
    | some es =>
      rw [hes] at hne hkeys
      obtain ⟨e, he⟩ := List.exists_mem_of_ne_nil es hne
      exact Bool.false_ne_true ((h.2 es hes e he).symm.trans (hkeys e he))
  have hoperators : (operators? v).execute s = (.ok none, s) := by
    rw [execute_operators?_of_not_mixed, hnone]
    rintro es hes ⟨⟨e, he, hkey⟩, -⟩
    exact Bool.false_ne_true ((h.2 es hes e he).symm.trans hkey)
  rw [compileClauseAt.eq_3 _ _ _ _ _ h.1, Action.execute_bind_of_ok hoperators]
  rfl

/-- The query of a shorthand for inequality compiles to the negation of what its operand says as a
clause. -/
theorem execute_compileAt_unequal (hspec : IsSingle s.store spec path Operator.negation operand)
    (hpath : isOperatorName path = false) (fuel : Nat) :
    (compileAt caller validators (fuel + 1) spec).execute s =
      (do return .not (← compileClauseAt caller validators (.str path) (s.store.size + 1) operand) :
        Action Expression).execute s := by
  rw [execute_compileAt_shorthand hspec hpath (by decide)]
  rfl

/-- The negation of a query compiles to the negation of what the query compiles to. -/
theorem execute_compileAt_negation {r q : Address} {es : Entries}
    (hcell : s.store.cell? r = some (.dict [(.str Operator.negation, .ref q)]))
    (hspec : s.store.cell? q = some (.dict es)) (fuel : Nat) :
    (compileAt caller validators (fuel + 1) (.ref r)).execute s =
      (do return .not (← compileAt caller validators fuel (.ref q)) :
        Action Expression).execute s := by
  have hmapping : s.store.isMapping (.ref q) = true := by
    simp [Store.isMapping, Store.entries?, Store.view, hspec]
  rw [execute_compileAt_single hcell, if_pos rfl, hmapping, Bool.true_or, if_pos rfl]

end Recordset.Query
