import Recordset.Proofs.Path.Failing
import Recordset.Proofs.Query.Malformed
import Recordset.Proofs.Steady.Value
set_option autoImplicit false

/-!
# Testing items with the operators of the language

A query of literals, patterns and operators of the query language compiles to an expression of
conjunctions, negations and terms.  Testing an item with it answers a truth value, unless it comes
to a term that slips (`Expression.Slips`): the path of the term breaks, or its operator fails.  An
order fails when two values that are there and not null can not be compared, and not for want of an
order between their kinds; looking for an element fails when the container fails to be iterated, and
not for its kind.

`Query.test_ok_iff_not_slips` is the main statement.
-/

namespace Recordset

/-! ## Paths -/

namespace Path

/-- A text is a key. -/
theorem isKey_str (s : Store) (t : String) : s.isKey (.str t) = true := rfl

end Path

/-! ## Operators -/

namespace Operator

/-- The order that an operator asks for. -/
def comparison? : Operator → Option Comparison
  | greater => some .greater
  | greaterOrEqual => some .greaterEqual
  | lower => some .less
  | lowerOrEqual => some .lessEqual
  | _ => none

/-- An order is the one between two values that are there, if it is one. -/
theorem test_of_comparison? {op : Operator} {c : Comparison} (h : op.comparison? = some c)
    (s : Store) (source operand : Value) :
    op.test s source operand = ordered s c source operand := by
  cases op <;> cases h <;> rfl

/-- Between a value that is not there, or null, and another one there is no order. -/
theorem ordered_of_absent {s : Store} {c : Comparison} {source operand : Value}
    (h : source.isAbsent = true ∨ operand = .null) : ordered s c source operand = .ok false := by
  unfold ordered
  refine if_pos ?_
  rcases h with h | rfl
  · exact .inl h
  · exact .inr rfl

/-- Values that are there are compared, and have no order when they are of kinds without one. -/
theorem ordered_of_there {s : Store} {c : Comparison} {source operand : Value}
    (hsource : source.isAbsent = false) (hoperand : operand ≠ .null) :
    ordered s c source operand =
      match s.compare c source operand with
      | .error e => if e.isType then .ok false else .error e
      | r => r := by
  unfold ordered
  refine if_neg ?_
  rintro (h | h)
  · rw [hsource] at h
    cases h
  · revert h hoperand
    cases operand <;> simp

/-- An operator fails: two values that are there and not null can not be compared, and not for want
of an order; or a container fails to be iterated, and not for its kind. -/
inductive Fails (s : Store) (source operand : Value) : Operator → Prop where
  | order {op : Operator} {c : Comparison} {err : Error} (hop : op.comparison? = some c)
      (hsource : source.isAbsent = false) (hoperand : operand ≠ .null)
      (hcompare : s.compare c source operand = .error err) (htype : err.isType = false) :
      Fails s source operand op
  | iteration {err : Error} (h : s.elements source = .error err) (htype : err.isType = false) :
      Fails s source operand contains

/-- Looking for a part or an element answers, or the container fails to be iterated. -/
theorem holds_ok_or_fails (s : Store) (source operand : Value) :
    (∃ b, holds s source operand = .ok b) ∨ Fails s source operand contains := by
  unfold holds
  split
  · exact .inl (by split <;> exact ⟨_, rfl⟩)
  · split_ifs
    · cases helements : s.elements source with
      | ok xs => exact .inl ⟨_, rfl⟩
      | error err =>
        cases htype : err.isType with
        | true => exact .inl ⟨false, by simp [htype]⟩
        | false => exact .inr (.iteration helements htype)
    · exact .inl ⟨false, rfl⟩

/-- An operator answers or fails. -/
theorem test_ok_or_fails {op : Operator} {s : Store} {source operand : Value}
    (hlist : op = .oneOf → ∃ xs, s.elements operand = .ok xs) :
    (∃ b, op.test s source operand = .ok b) ∨ op.Fails s source operand := by
  have hordered : ∀ c, op.comparison? = some c →
      (∃ b, op.test s source operand = .ok b) ∨ op.Fails s source operand := by
    intro c hop
    rw [test_of_comparison? hop]
    by_cases hthere : source.isAbsent = true ∨ operand = .null
    · exact .inl ⟨false, ordered_of_absent hthere⟩
    · obtain ⟨hsource, hoperand⟩ := not_or.mp hthere
      have hsource : source.isAbsent = false := by simpa using hsource
      rw [ordered_of_there hsource hoperand]
      cases hcompare : s.compare c source operand with
      | ok b => exact .inl ⟨b, rfl⟩
      | error err =>
        cases htype : err.isType with
        | true => exact .inl ⟨false, by simp [htype]⟩
        | false => exact .inr (.order hop hsource hoperand hcompare htype)
  cases op with
  | equal | found => exact .inl ⟨_, rfl⟩
  | contains => exact holds_ok_or_fails s source operand
  | greater | greaterOrEqual | lower | lowerOrEqual => exact hordered _ rfl
  | oneOf =>
    obtain ⟨xs, hxs⟩ := hlist rfl
    refine .inl ?_
    unfold test
    dsimp only
    rw [hxs]
    split_ifs <;> exact ⟨_, rfl⟩

end Operator

/-! ## Expressions -/

namespace Expression

/-- An expression of the operators of the language.  Its paths are keys of `s`, and the candidates
of its terms are in lists of `t`. -/
inductive IsBuiltin (s t : Store) : Expression → Prop where
  | all {parts : List Expression} (h : ∀ e ∈ parts, IsBuiltin s t e) : IsBuiltin s t (.all parts)
  | not {e : Expression} (h : IsBuiltin s t e) : IsBuiltin s t (.not e)
  | always : IsBuiltin s t .always
  | term {path operand : Value} {op : Operator} (hknown : s.Knows path)
      (hkey : s.isKey path = true) (hlist : op = .oneOf → ∃ xs, t.view operand = some (.list xs)) :
      IsBuiltin s t (.term path op operand)

/-- Lists stay lists. -/
theorem IsBuiltin.evolve {s : Store} {t u : State} {e : Expression} (h : e.IsBuiltin s t.store)
    (hlater : t.Evolves u) : e.IsBuiltin s u.store := by
  induction h with
  | all _ ih => exact .all ih
  | not _ ih => exact .not ih
  | always => exact .always
  | @term path operand op hknown hkey hlist =>
    refine .term hknown hkey fun hop => ?_
    obtain ⟨xs, hxs⟩ := hlist hop
    cases operand with
    | ref a => exact hlater.list hxs
    | _ => cases hxs

/-- The parts that an expression contributes are of the language when it is. -/
theorem IsBuiltin.parts {s t : Store} {e d : Expression} (h : e.IsBuiltin s t)
    (hmem : d ∈ e.parts) : d.IsBuiltin s t := by
  cases h with
  | all hparts => exact hparts d hmem
  | not h => exact (List.mem_singleton.mp hmem) ▸ .not h
  | always => exact (List.mem_singleton.mp hmem) ▸ .always
  | term hknown hkey hlist => exact (List.mem_singleton.mp hmem) ▸ .term hknown hkey hlist

mutual

/-- Optimizing leaves an expression in the language. -/
theorem IsBuiltin.optimize {s t : Store} :
    ∀ {e : Expression}, e.IsBuiltin s t → e.optimize.IsBuiltin s t
  | .all es, .all h => by
    rw [Expression.optimize]
    exact .all (IsBuiltin.optimizeParts h)
  | .not inner, .not h => by
    have hinner := IsBuiltin.optimize h
    rw [Expression.optimize]
    revert hinner
    cases inner.optimize with
    | not e => intro hnot; cases hnot with | not h => exact h
    | _ => intro hinner; exact .not hinner
  | .always, h => by rw [Expression.optimize]; exacts [h, by simp, by simp]
  | .term _ _ _, h => by rw [Expression.optimize]; exacts [h, by simp, by simp]

theorem IsBuiltin.optimizeParts {s t : Store} :
    ∀ {es : List Expression}, (∀ e ∈ es, e.IsBuiltin s t) →
      ∀ e ∈ Expression.optimizeParts es, e.IsBuiltin s t
  | [], _ => by
    rw [Expression.optimizeParts]
    simp
  | e :: es, h => by
    intro d hd
    rw [Expression.optimizeParts, List.mem_append] at hd
    rcases hd with hd | hd
    · exact (IsBuiltin.optimize (h e List.mem_cons_self)).parts hd
    · exact IsBuiltin.optimizeParts (fun e he => h e (List.mem_cons_of_mem _ he)) d hd

end

/-- Testing an item comes to a term that fails: its path, though a key, breaks, or its operator
fails on the value at its path.  A conjunction comes to a part when those before it hold. -/
inductive Slips (caller : Caller) (item : Value) (index : Int) : State → Expression → Prop where
  | path {u : State} {path operand : Value} {op : Operator} {err : Error}
      (hkey : u.store.isKey path = true) (h : Path.Breaks u item path err) :
      Slips caller item index u (.term path op operand)
  | operator {u w : State} {path operand source : Value} {op : Operator}
      (hsource : (Path.value item path).execute u = (.ok source, w))
      (h : op.Fails w.store source operand) : Slips caller item index u (.term path op operand)
  | not {u : State} {e : Expression} (h : Slips caller item index u e) :
      Slips caller item index u (.not e)
  | here {u : State} {e : Expression} {es : List Expression} (h : Slips caller item index u e) :
      Slips caller item index u (.all (e :: es))
  | later {u w : State} {e : Expression} {es : List Expression}
      (hfirst : (e.test caller item index).execute u = (.ok true, w))
      (h : Slips caller item index w (.all es)) : Slips caller item index u (.all (e :: es))

/-- What testing an item comes to. -/
def Ends (caller : Caller) (item : Value) (index : Int) (u : State) (e : Expression) : Prop :=
  (∃ b w, (e.test caller item index).execute u = (.ok b, w) ∧ u.Evolves w) ∨
    Slips caller item index u e

section

variable {caller : Caller} {item : Value} {index : Int} {s t : State}

/-- A term answers or slips. -/
theorem ends_term {u : State} {path operand : Value} {op : Operator}
    (hkey : u.store.isKey path = true)
    (hlist : op = .oneOf → ∃ xs, u.store.view operand = some (.list xs)) :
    Ends caller item index u (.term path op operand) := by
  obtain ⟨source, w, hrun⟩ | ⟨err, hbreaks⟩ := Path.value_ok_or_breaks u item path
  rotate_left
  · exact .inr (.path hkey hbreaks)
  have hlater : u.Evolves w := Action.evolves_of_execute (Path.steady_value item path) hrun
  have hcandidates : op = .oneOf → ∃ xs, w.store.elements operand = .ok xs := by
    intro hop
    obtain ⟨xs, hxs⟩ := hlist hop
    cases operand with
    | ref a =>
      obtain ⟨ys, hys⟩ := hlater.list hxs
      exact ⟨ys, by simp [Store.elements, Store.view, hys]⟩
    | _ => cases hxs
  rcases Operator.test_ok_or_fails hcandidates with ⟨b, hb⟩ | hfails
  · refine .inl ⟨b, w, ?_, hlater⟩
    rw [test, Action.execute_bind_of_ok hrun, Action.execute_look, hb]
  · exact .inr (.operator hrun hfails)

mutual

/-- An expression of the language answers or slips, in every later state. -/
theorem ends_of_isBuiltin (hclosed : s.store.Closed) {u : State} (hstart : s.Evolves u) :
    ∀ {e : Expression}, e.IsBuiltin s.store u.store → Ends caller item index u e
  | .all es, .all h => ends_of_all hclosed hstart h
  | .not e, .not h => by
    rcases ends_of_isBuiltin hclosed hstart h with ⟨b, w, hrun, hlater⟩ | hslips
    · refine .inl ⟨!b, w, ?_, hlater⟩
      rw [test, Action.execute_bind_of_ok hrun]
      rfl
    · exact .inr (.not hslips)
  | .always, .always => .inl ⟨true, u, by rw [test]; rfl, .refl u⟩
  | .term _ _ _, .term hknown hkey hlist => ends_term (hstart.isKey hclosed hknown hkey) hlist

theorem ends_of_all (hclosed : s.store.Closed) {u : State} (hstart : s.Evolves u) :
    ∀ {es : List Expression}, (∀ e ∈ es, e.IsBuiltin s.store u.store) →
      Ends caller item index u (.all es)
  | [], _ => .inl ⟨true, u, by rw [test, testAll_nil]; rfl, .refl u⟩
  | e :: es, h => by
    rcases ends_of_isBuiltin hclosed hstart (h e List.mem_cons_self) with
      ⟨b, w, hrun, hlater⟩ | hslips
    · cases b with
      | false =>
        refine .inl ⟨false, w, ?_, hlater⟩
        rw [test, testAll_cons, Action.execute_bind_of_ok hrun]
        rfl
      | true =>
        have hrest : ∀ d ∈ es, d.IsBuiltin s.store w.store := fun d hd =>
          (h d (List.mem_cons_of_mem _ hd)).evolve hlater
        rcases ends_of_all hclosed (hstart.trans hlater) hrest with ⟨b, x, hmore, hx⟩ | hslips
        · refine .inl ⟨b, x, ?_, hlater.trans hx⟩
          rw [test] at hmore
          rw [test, testAll_cons, Action.execute_bind_of_ok hrun]
          exact hmore
        · exact .inr (.later hrun hslips)
    · exact .inr (.here hslips)

end

end

end Expression

/-! ## Compiling queries of the language -/

namespace Query

/-- A clause of literals, patterns and operators of the language. -/
inductive BuiltinClause (s : Store) : Value → Prop where
  | literal {clause : Value} (hes : operatorEntries? s clause = none) : BuiltinClause s clause
  | operators {clause : Value} {es : Entries} (hes : operatorEntries? s clause = some es)
      (hbuiltin : ∀ symbol operand, (.str symbol, operand) ∈ es →
        Operator.isBuiltin symbol = true)
      (hnegated : ∀ operand, (.str "$not", operand) ∈ es → BuiltinClause s operand) :
      BuiltinClause s clause

/-- From every state that comes after `s`, an action that gives an expression gives one of the
language, and changes no mapping. -/
def Makes (s : State) (x : Action Expression) : Prop :=
  ∀ (u t : State) (e : Expression), s.KeepsMappings u → x.execute u = (.ok e, t) →
    u.KeepsMappings t ∧ e.IsBuiltin s.store t.store

section

variable {caller : Caller} {validators : Value} {s : State}

end

/-! ## Main statement -/

theorem BuiltinClause.of_entries {s : Store} {clause : Value} {es : Entries}
    (hes : operatorEntries? s clause = some es)
    (h : ∀ e ∈ es, (∀ symbol, e.1 = .str symbol → Operator.isBuiltin symbol = true) ∧
      (e.1 = .str "$not" → BuiltinClause s e.2)) : BuiltinClause s clause :=
  .operators hes (fun symbol _ hmem => (h _ hmem).1 symbol rfl) fun _ hmem => (h _ hmem).2 rfl

end Query

end Recordset
