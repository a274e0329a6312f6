import Recordset.Proofs.Query.Shorthand
import Recordset.Proofs.Query.Testing
import Recordset.Proofs.Tree
set_option autoImplicit false

/-!
# Truth values in equality

Equality in queries keeps truth values and numbers apart, but looks for them only at the two values
that it compares: what is inside of them is compared as numbers are.  So trees of data are
identified when they have truth values at the same places and are otherwise equal, and besides when
they are equal containers with a truth value of one at a place inside at which the other has a
number (`Tree.Mixed`).

`Query.identifies_iff` is the main statement.
-/

namespace Recordset

namespace Tree

/-- Containers that are equal only as long as truth values are taken for numbers: at some place
inside one of the two has a truth value and the other one has none. -/
structure Mixed (d e : Tree) : Prop where
  counted : d.counted = e.counted
  outside : d.FlagAt [] ↔ e.FlagAt []
  inside : ∃ step rest, ¬ (d.FlagAt (step :: rest) ↔ e.FlagAt (step :: rest))

variable {d e : Tree}

/-- Trees that are equal with truth values taken for numbers, and both or neither of which is a
truth value, are identical or mixed. -/
theorem eq_or_mixed_iff :
    (d.FlagAt [] ↔ e.FlagAt []) ∧ d.counted = e.counted ↔ d = e ∨ d.Mixed e := by
  rw [@eq_iff d e]
  constructor
  · rintro ⟨houtside, hcounted⟩
    by_cases hflags : d.SameFlags e
    · exact .inl ⟨hflags, hcounted⟩
    · obtain ⟨place, hplace⟩ := not_forall.mp hflags
      cases place with
      | nil => exact absurd houtside hplace
      | cons step rest => exact .inr ⟨hcounted, houtside, step, rest, hplace⟩
  · rintro (⟨hflags, hcounted⟩ | hmixed)
    · exact ⟨hflags [], hcounted⟩
    · exact ⟨hmixed.outside, hmixed.counted⟩

/-- Mixed containers do not have truth values at the same places. -/
theorem Mixed.not_sameFlags (h : d.Mixed e) : ¬ d.SameFlags e := fun hflags => by
  obtain ⟨step, rest, hplace⟩ := h.inside
  exact hplace (hflags (step :: rest))

end Tree

namespace Operator

variable {s t : State} {r : Store} {op : Operator} {v w source operand kept : Value} {d e : Tree}

theorem isBool_iff_flagAt (h : r.Shows v d) : v.isBool = true ↔ d.FlagAt [] := by
  cases h with
  | flag => exact iff_of_true rfl trivial
  | _ => exact iff_of_false nofun id

/-- Equality identifies data that is equal with truth values taken for numbers, if both or neither
is a truth value itself. -/
theorem strictEqual_iff (hv : r.Shows v d) (hw : r.Shows w e) :
    strictEqual r v w = true ↔ d = e ∨ d.Mixed e := by
  rw [← Tree.eq_or_mixed_iff, ← isBool_iff_flagAt hv, ← isBool_iff_flagAt hw,
    ← Bool.eq_iff_iff]
  obtain ⟨b, hequal, hb⟩ := hv.decides_equal hw
  have hmissing : v.isMissing = false := by
    cases hv <;> rfl
  unfold strictEqual
  rw [hmissing, hequal, ← hb]
  by_cases hkind : v.isBool = w.isBool <;> simp [hkind, Store.succeeds]

/-! ## The pairs that are compared -/

/-- An operator that asks for equality: of the value, with a candidate, or of an element. -/
def IsEquality (op : Operator) : Prop := op = equal ∨ op = oneOf ∨ op = contains

/-- The pairs of values that an operator for equality compares. -/
def pairs (s : Store) (op : Operator) (source operand : Value) : List (Value × Value) :=
  match op with
  | oneOf => ((s.elements operand).toOption.getD []).map (source, ·)
  | contains =>
    if isContainer s source then ((s.elements source).toOption.getD []).map (·, operand) else []
  | _ => [(source, operand)]

/-- A text is found as a part of a text. -/
def FindsPart (op : Operator) (source operand : Value) : Prop :=
  op = contains ∧ ∃ whole part, source = .str whole ∧ operand = .str part ∧
    Store.isPart part whole = true

/-- Nothing is equal to a value that is not there. -/
theorem strictEqual_missing (r : Store) (h : source.isMissing = true) (w : Value) :
    strictEqual r source w = false := by
  unfold strictEqual
  rw [if_pos h]

theorem test_oneOf {xs : List Value} (h : r.elements operand = .ok xs) :
    oneOf.test r source operand = .ok (xs.any fun x => strictEqual r source x) := by
  unfold test
  dsimp only
  rw [h]
  split
  · rename_i hmissing
    simp [strictEqual_missing r hmissing]
  · rfl

/-- A value that is no text holds what is equal to one of its elements. -/
theorem holds_pairs (htext : source.str? = none) (hanswers : ¬ Fails r source operand contains) :
    holds r source operand =
      .ok ((contains.pairs r source operand).any fun p => strictEqual r p.1 p.2) := by
  unfold holds pairs
  split
  · cases htext
  · split
    · dsimp only
      cases helements : r.elements source with
      | ok xs =>
        exact congrArg Except.ok
          (@List.any_map _ _ (·, operand) xs fun p => strictEqual r p.1 p.2).symm
      | error e =>
        cases htype : e.isType with
        | true => exact if_pos htype
        | false => exact absurd (.iteration helements htype) hanswers
    · rfl

/-- No operator for equality fails on a value that shows a tree. -/
theorem not_fails_of_shows (hop : op.IsEquality) (hd : r.Shows source d) :
    ¬ op.Fails r source operand := by
  rintro (⟨hcomparison, -⟩ | ⟨helements, htype⟩)
  · rcases hop with rfl | rfl | rfl <;> cases hcomparison
  · cases hd with
    | @sequence a kind xs items hcell =>
      have hview : r.view (.ref a) = some (kind.cell xs) := hcell
      cases kind <;> simp [Store.elements, hview, Sequence.cell] at helements
    | @mapping a fields values hcell =>
      have hview : r.view (.ref a) = some (.dict (Entries.named fields)) := hcell
      simp [Store.elements, hview] at helements
    | text => cases helements
    | _ =>
      cases helements
      cases htype

/-- An operator for equality answers whether it identifies the values of some pair, or finds a text
in a text. -/
theorem test_pairs (hop : op.IsEquality)
    (hcandidates : op = oneOf → ∃ xs, r.elements operand = .ok xs)
    (hanswers : ¬ op.Fails r source operand) :
    ∃ b, op.test r source operand = .ok b ∧
      (b = true ↔ (∃ p ∈ op.pairs r source operand, strictEqual r p.1 p.2 = true) ∨
        op.FindsPart source operand) := by
  have hnone : op ≠ contains → ¬ op.FindsPart source operand := fun h hfinds => h hfinds.1
  rcases hop with rfl | rfl | rfl
  · refine ⟨_, rfl, ?_⟩
    rw [or_iff_left (hnone nofun)]
    simp [pairs]
  · obtain ⟨xs, hxs⟩ := hcandidates rfl
    refine ⟨_, test_oneOf hxs, ?_⟩
    rw [or_iff_left (hnone nofun), List.any_eq_true]
    simp [pairs, hxs, Except.toOption]
  · cases htext : source.str? with
    | none =>
      refine ⟨_, holds_pairs htext hanswers, ?_⟩
      rw [List.any_eq_true, or_iff_left]
      rintro ⟨-, whole, part, rfl, -⟩
      cases htext
    | some whole =>
      obtain rfl : source = .str whole := by
        cases source <;> cases htext
        rfl
      have hpairs : contains.pairs r (.str whole) operand = [] := rfl
      rw [hpairs]
      cases operand <;> exact ⟨_, rfl, by simp [FindsPart]⟩

/-- What is kept of an operand: of candidates a list of their own, otherwise the operand. -/
def Keeps (op : Operator) (s t : Store) (operand kept : Value) : Prop :=
  if op = oneOf then ∃ xs, s.elements operand = .ok xs ∧ t.elements kept = .ok xs
  else kept = operand

theorem keeps_of_prepare (h : (op.prepare operand).execute s = (.ok kept, t)) :
    op.Keeps s.store t.store operand kept := by
  unfold Keeps
  split
  · rename_i hop
    subst hop
    obtain ⟨xs, u, hiterate, hmake⟩ := Action.execute_bind_ok (Query.prepare_oneOf_ok h)
    obtain ⟨a, w, hmade, -, -, ha⟩ := u.make_ok (.list xs)
    rw [hmade] at hmake
    cases hmake
    refine ⟨xs, Action.elements_of_iterate hiterate, ?_⟩
    simp [Store.elements, Store.view, ha]
  · rename_i hop
    rw [Query.prepare_of_ne_oneOf hop] at h
    cases h
    rfl

end Operator

/-! ## Main statement -/

namespace Query

/-- A clause asks for an operator with an operand: a literal for equality, and an object of one
operator for that operator. -/
inductive AsksFor (s : Store) : Value → Operator → Value → Prop where
  | literal {v : Value} (h : IsLiteral s v) : AsksFor s v .equal v
  | operator {q : Address} {symbol : String} {op : Operator} {operand : Value}
    (hcell : s.cell? q = some (.dict [(.str symbol, operand)]))
    (hop : Operator.ofSymbol? symbol = some op) : AsksFor s (.ref q) op operand

variable {caller : Caller} {validators path clause operand kept source : Value} {op : Operator}
  {s t x y : State}

/-- A clause compiles to the term of its operator. -/
theorem execute_compileClause_term (h : AsksFor s.store clause op operand)
    (hkept : (op.prepare operand).execute s = (.ok kept, t)) :
    (compileClause caller validators path clause).execute s = (.ok (.term path op kept), t) := by
  unfold compileClause Store.depth
  rw [Action.execute_get_bind]
  cases h with
  | literal hliteral =>
    cases hkept
    exact execute_compileClauseAt_literal hliteral _
  | operator hcell hop =>
    obtain ⟨hsymbol, hnot⟩ := isOperatorName_of_ofSymbol? hop
    rw [execute_compileClauseAt_single hcell hsymbol]
    unfold compileOperator
    rw [if_neg hnot, hop, Action.execute_bind_of_ok hkept]
    rfl

/-- The clauses that ask for equality identify values by the trees which they show.  A literal, and
an object of an operator for equality, compiles to a term that keeps the operand.  For an item the
term answers whether some pair of the values that it compares is identified: the value at the path
and the operand, the value and a candidate, or an element of the value and the operand; a text is
also looked for in a text.  It does so unless the value at the path is a container that fails to be
iterated, which no value is that shows a tree.  Two values that show trees are identified exactly
when the trees are identical, which means that they have truth values at the same places and are
otherwise equal, or are mixed, which means that they have not. -/
theorem identifies_iff {item : Value} {index : Int} (hop : op.IsEquality)
    (hasks : AsksFor s.store clause op operand)
    (hkept : (op.prepare operand).execute s = (.ok kept, t))
    (hsource : (Path.value item path).execute x = (.ok source, y))
    (hcandidates : op = .oneOf → y.store.elements kept = t.store.elements kept) :
    (compileClause caller validators path clause).execute s = (.ok (.term path op kept), t) ∧
    op.Keeps s.store t.store operand kept ∧
    (¬ op.Fails y.store source kept →
      ∃ b, ((Expression.term path op kept).test caller item index).execute x = (.ok b, y) ∧
        (b = true ↔ (∃ p ∈ op.pairs y.store source kept,
          Operator.strictEqual y.store p.1 p.2 = true) ∨ op.FindsPart source kept)) ∧
    (∀ d, y.store.Shows source d → ¬ op.Fails y.store source kept) ∧
    ∀ p ∈ op.pairs y.store source kept, ∀ d e, y.store.Shows p.1 d → y.store.Shows p.2 e →
      (Operator.strictEqual y.store p.1 p.2 = true ↔ d = e ∨ d.Mixed e) ∧
        (d = e ↔ d.SameFlags e ∧ d.counted = e.counted) ∧ (d.Mixed e → ¬ d.SameFlags e) := by
  have hkeeps := Operator.keeps_of_prepare hkept
  have hlist : op = .oneOf → ∃ xs, y.store.elements kept = .ok xs := by
    intro heq
    unfold Operator.Keeps at hkeeps
    rw [if_pos heq] at hkeeps
    obtain ⟨xs, -, hxs⟩ := hkeeps
    exact ⟨xs, (hcandidates heq).trans hxs⟩
  refine ⟨execute_compileClause_term hasks hkept, hkeeps, fun hanswers => ?_,
    fun d hd => Operator.not_fails_of_shows hop hd, fun p _ d e hd he =>
      ⟨Operator.strictEqual_iff hd he, Tree.eq_iff, Tree.Mixed.not_sameFlags⟩⟩
  obtain ⟨b, htest, hb⟩ := Operator.test_pairs hop hlist hanswers
  refine ⟨b, ?_, hb⟩
  rw [Expression.test, Action.execute_bind_of_ok hsource, Action.execute_look, htest]

/-- An item with a list of a truth value, and the same list of a number. -/
def flagged : State where
  store := { cells := #[
    .dict [(.str "a", .ref ⟨1⟩)],
    .list [.bool true, .int 2],
    .dict [(.str "$contains", .int 1)],
    .list [.int 1, .int 2],
    .dict [(.str "a", .ref ⟨3⟩)]] }

theorem shows_flagged :
    flagged.store.Shows (.ref ⟨1⟩) (.sequence .list 2 [Tree.flag true, .number 2].get) ∧
      flagged.store.Shows (.ref ⟨3⟩) (.sequence .list 2 [Tree.number 1, .number 2].get) := by
  constructor
  · refine @Store.Shows.sequence _ _ .list [.bool true, .int 2] _ rfl fun i => ?_
    match i with
    | 0 => exact .flag true
    | 1 => exact .number 2
  · refine @Store.Shows.sequence _ _ .list [.int 1, .int 2] _ rfl fun i => ?_
    match i with
    | 0 => exact .number 1
    | 1 => exact .number 2

/-- A query for one among a truth value and two finds nothing: the truth value would have to be
identical to one, or mixed with it. -/
theorem identifies_flagged :
    ∃ b, ((Expression.term (.str "a") .contains (.int 1)).test apply (.ref ⟨0⟩) 0).execute flagged =
        (.ok b, flagged) ∧ b = false ∧
      (Operator.strictEqual flagged.store (.bool true) (.int 1) = true ↔
        Tree.flag true = .number 1 ∨ (Tree.flag true).Mixed (.number 1)) := by
  have hasks : AsksFor flagged.store (.ref ⟨2⟩) .contains (.int 1) :=
    .operator (show flagged.store.cell? ⟨2⟩ = some (.dict [(.str "$contains", .int 1)]) from rfl)
      (by decide +kernel)
  have hnothing : ∃ b, (((Expression.term (.str "a") .contains (.int 1)).test apply (.ref ⟨0⟩)
      0).execute flagged).1 = .ok b ∧ b = false := by
    decide +kernel
  obtain ⟨-, -, hanswers, hshows, hpairs⟩ := @identifies_iff apply .null (.str "a") (.ref ⟨2⟩)
    (.int 1) (.int 1) (.ref ⟨1⟩) .contains flagged flagged flagged flagged (.ref ⟨0⟩) 0
    (.inr (.inr rfl)) hasks rfl rfl nofun
  obtain ⟨b, htest, -⟩ := hanswers (hshows _ shows_flagged.1)
  obtain ⟨c, hrun, hc⟩ := hnothing
  rw [htest] at hrun
  cases hrun
  have hpair :
      (Value.bool true, Value.int 1) ∈ [(Value.bool true, Value.int 1), (.int 2, .int 1)] :=
    List.mem_cons_self
  exact ⟨b, htest, hc, (hpairs _ hpair _ _ (.flag true) (.number 1)).1⟩

/-- A query for the list of one and two accepts the list of a truth value and two. -/
theorem identifies_mixedLists :
    (∃ b, ((do (← compile apply .null (.ref ⟨4⟩)).test apply (.ref ⟨0⟩) 0).execute flagged).1 =
      .ok b ∧ b = true) ∧
    ∃ d e, flagged.store.Shows (.ref ⟨1⟩) d ∧ flagged.store.Shows (.ref ⟨3⟩) e ∧
      ¬ d.SameFlags e := by
  refine ⟨by decide +kernel, _, _, shows_flagged.1, shows_flagged.2, fun hflags => ?_⟩
  obtain ⟨_, hflag⟩ := (hflags [.position 0]).mp ⟨Nat.two_pos, trivial⟩
  exact hflag

end Query

end Recordset
