import Recordset.Proofs.Collection.Grouping
set_option autoImplicit false

/-!
# Order and equality in queries

The operators for order go by the measures of two values.  The operator for equality goes by them
too, but keeps truth values and numbers apart.  So an order that allows equality says what the
strict order and equality say together, except of a truth value and the number that it counts as
(`Value.Crossed`): of these two the strict orders and equality all say no.

`Collection.orders_consistent` is the main statement.
-/

namespace Recordset

namespace Value

variable {v w : Value}

/-- One of two values is a truth value, and the other one is the number that it counts as. -/
def Crossed (v w : Value) : Prop := v.isBool ≠ w.isBool ∧ v.measure? = w.measure?

theorem exists_measure (h : v.IsNumber ∨ v.IsText) : ∃ m, v.measure? = some m := by
  rcases h with ⟨n, hn, hnan⟩ | ⟨t, rfl⟩
  · exact ⟨_, measure?_number hn hnan⟩
  · exact ⟨.inr t, rfl⟩

theorem isConstant_of_measure? {m : WithBot (WithTop ℚ) ⊕ String} (h : v.measure? = some m) :
    v.IsConstant := by
  cases v with
  | ref | method | extension => cases h
  | _ => trivial

end Value

namespace Operator

variable {op : Operator} {v w : Value} {answers : Operator → Bool}

/-- An operator that compares a value with its operand, for equality or in an order. -/
def Compares (op : Operator) : Prop := op = equal ∨ ∃ c, op.comparison? = some c

/-- What the operators that compare say of two numbers or texts. -/
def Relates (op : Operator) (v w : Value) : Prop :=
  match op.comparison? with
  | some c => ∃ m n, v.measure? = some m ∧ w.measure? = some n ∧ c.Orders m n
  | none => v.isBool = w.isBool ∧ v.measure? = w.measure?

/-- What an operator that compares answers about two constants, whatever is stored. -/
def answer (op : Operator) (v w : Value) : Bool := op.test {} v w matches .ok true

/-- Of two numbers or texts an operator that compares says yes or no, by their measures. -/
theorem test_of_measures (s : Store) (hop : op.Compares) (hv : v.IsNumber ∨ v.IsText)
    (hw : w.IsNumber ∨ w.IsText) :
    Store.Decides (op.test s v w) (op.Relates v w) := by
  obtain ⟨m, hm⟩ := Value.exists_measure hv
  obtain ⟨n, hn⟩ := Value.exists_measure hw
  have hthere := Value.isAbsent_of_measure? hm
  rcases hop with rfl | ⟨c, hc⟩
  · obtain ⟨b, hequal, hb⟩ := s.equal_of_measures hm hn
    have hmissing : v.isMissing = false := by
      cases v with
      | missing => cases hthere
      | _ => rfl
    refine ⟨strictEqual s v w, rfl, ?_⟩
    unfold strictEqual Relates
    rw [hmissing, hequal, hm, hn]
    dsimp only [comparison?, Store.succeeds]
    by_cases hkind : v.isBool = w.isBool <;> simp [hkind, hb]
  · have hnull : w ≠ .null := by
      rintro rfl
      cases hn
    rw [test_of_comparison? hc, ordered_of_there hthere hnull]
    have hrelates : op.Relates v w ↔ c.Orders m n := by
      unfold Relates
      rw [hc]
      simp [hm, hn]
    rw [hrelates]
    by_cases hmn : m ≤ n ∨ n ≤ m
    · obtain ⟨b, hrun, hb⟩ := s.compare_of_ordered c hm hn hmn
      rw [hrun]
      exact ⟨b, rfl, hb⟩
    · obtain ⟨left, right, hrun⟩ := s.compare_of_unordered c hm hn hmn
      rw [hrun]
      exact ⟨false, rfl, iff_of_false Bool.false_ne_true (Comparison.not_orders hmn c)⟩

/-- What the operators that compare say of two values fits together. -/
structure Consistent (v w : Value) (answers : Operator → Bool) : Prop where
  greaterOrEqual : answers greaterOrEqual = true ↔
    answers greater = true ∨ answers equal = true ∨ v.Crossed w
  lowerOrEqual : answers lowerOrEqual = true ↔
    answers lower = true ∨ answers equal = true ∨ v.Crossed w
  atMostOne : [answers lower, answers equal, answers greater].count true ≤ 1
  exactlyOne : v.Ordered w → v.isBool = w.isBool →
    [answers lower, answers equal, answers greater].count true = 1

/-- Equal measures are those of equal values, or of a truth value and the number that it counts
as. -/
theorem equal_or_crossed_iff : Relates equal v w ∨ v.Crossed w ↔ v.measure? = w.measure? := by
  unfold Relates Value.Crossed
  dsimp only [comparison?]
  rw [← or_and_right]
  exact and_iff_right (eq_or_ne _ _)

theorem consistent_of_relates (hv : v.IsNumber ∨ v.IsText) (hw : w.IsNumber ∨ w.IsText)
    (hanswers : ∀ op : Operator, op.Compares → (answers op = true ↔ op.Relates v w)) :
    Consistent v w answers := by
  obtain ⟨m, hm⟩ := Value.exists_measure hv
  obtain ⟨n, hn⟩ := Value.exists_measure hw
  have hsaid : ∀ op c, op.comparison? = some c → (answers op = true ↔ c.Orders m n) := by
    intro op c hc
    rw [hanswers op (.inr ⟨c, hc⟩)]
    unfold Relates
    rw [hc]
    simp [hm, hn]
  have hge : answers greaterOrEqual = true ↔ n ≤ m := hsaid _ .greaterEqual rfl
  have hgt : answers greater = true ↔ n < m := hsaid _ .greater rfl
  have hle : answers lowerOrEqual = true ↔ m ≤ n := hsaid _ .lessEqual rfl
  have hlt : answers lower = true ↔ m < n := hsaid _ .less rfl
  have heq : answers equal = true ↔ v.isBool = w.isBool ∧ m = n := by
    rw [hanswers equal (.inl rfl)]
    unfold Relates
    rw [hm, hn]
    exact and_congr_right fun _ => Option.some_inj
  have hboth : answers equal = true ∨ v.Crossed w ↔ m = n := by
    rw [hanswers equal (.inl rfl), equal_or_crossed_iff, hm, hn, Option.some_inj]
  have hnone : ∀ {b : Bool}, ¬ b = true → b = false := Bool.eq_false_iff.mpr
  refine ⟨?_, ?_, ?_, fun ⟨k, l, hk, hl, hkl⟩ hkind => ?_⟩
  · rw [hge, hgt, hboth, le_iff_lt_or_eq, eq_comm (a := n)]
  · rw [hle, hlt, hboth, le_iff_lt_or_eq]
  · by_cases hmn : m = n
    · rw [hnone fun h => (hlt.mp h).ne hmn, hnone fun h => (hgt.mp h).ne' hmn]
      cases answers equal <;> decide
    · rw [hnone fun h => hmn (heq.mp h).2]
      by_cases hless : m < n
      · rw [hnone fun h => lt_asymm hless (hgt.mp h)]
        cases answers lower <;> decide
      · rw [hnone fun h => hless (hlt.mp h)]
        cases answers greater <;> decide
  · obtain rfl : k = m := Option.some.inj (hk.symm.trans hm)
    obtain rfl : l = n := Option.some.inj (hl.symm.trans hn)
    rcases Comparison.orders_or (.inl rfl : Comparison.less.IsStrict) hkl with h | h | h
    · rw [hlt.mpr h, hnone fun h' => h.ne (heq.mp h').2, hnone fun h' => lt_asymm h (hgt.mp h')]
      decide
    · rw [heq.mpr ⟨hkind, h⟩, hnone fun h' => (hlt.mp h').ne h, hnone fun h' => (hgt.mp h').ne' h]
      decide
    · rw [hgt.mpr h, hnone fun h' => h.ne' (heq.mp h').2, hnone fun h' => lt_asymm h (hlt.mp h')]
      decide

theorem answer_iff_relates (hop : op.Compares) (hv : v.IsNumber ∨ v.IsText)
    (hw : w.IsNumber ∨ w.IsText) : op.answer v w = true ↔ op.Relates v w := by
  obtain ⟨b, hrun, hb⟩ := test_of_measures {} hop hv hw
  unfold answer
  rw [hrun, ← hb]
  cases b <;> simp

theorem test_eq_answer (s : Store) (hop : op.Compares) (hv : v.IsNumber ∨ v.IsText)
    (hw : w.IsNumber ∨ w.IsText) : op.test s v w = .ok (op.answer v w) := by
  obtain ⟨b, hrun, hb⟩ := test_of_measures s hop hv hw
  rw [hrun, Bool.eq_iff_iff.mpr (hb.trans (answer_iff_relates hop hv hw).symm)]

theorem consistent_answer (hv : v.IsNumber ∨ v.IsText) (hw : w.IsNumber ∨ w.IsText) :
    Consistent v w (answer · v w) :=
  consistent_of_relates hv hw fun _ hop => answer_iff_relates hop hv hw

theorem Compares.prepare (hop : op.Compares) (w : Value) : op.prepare w = pure w := by
  refine Query.prepare_of_ne_oneOf ?_ w
  rintro rfl
  rcases hop with hop | ⟨c, hc⟩
  · cases hop
  · cases hc

end Operator

/-! ## Queries -/

/-- Asks of an item the query that a shorthand makes. -/
def Query.ask (caller : Caller) (validators : Value) (path symbol : String)
    (operand item : Value) (index : Int) : Action Bool := do
  let e ← compile caller validators (← single (.str path) symbol operand)
  e.test caller item index

section

variable {caller : Caller} {path symbol : String} {op : Operator} {v w item : Value} {s t u : State}

/-- The query of an operator that compares is answered about the value at its path. -/
theorem Query.ask_ok (validators : Value) (index : Int) (hwhole : s.Whole) (hroot : s.store.Rooted)
    (hitem : s.Made item) (hpath : Query.isOperatorName path = false)
    (hrun : (Path.value item (.str path)).execute s = (.ok v, u)) (hv : v.IsNumber ∨ v.IsText)
    (hw : w.IsNumber ∨ w.IsText) (hsymbol : Operator.ofSymbol? symbol = some op)
    (hop : op.Compares) (ht : s.Later t) :
    ∃ u, (ask caller validators path symbol w item index).execute t = (.ok (op.answer v w), u) ∧
      t.Later u := by
  obtain ⟨m, hm⟩ := Value.exists_measure hv
  obtain ⟨spec, t', hsingle, ht', -, hspec⟩ := single_ok path symbol w t
  obtain ⟨u', hfound, hu'⟩ := Path.value_later hwhole hroot hitem
    (Value.isConstant_of_measure? hm) hrun (ht.trans ht')
  refine ⟨u', ?_, ht'.trans hu'⟩
  have hcompile : (compile caller validators spec).execute t' =
      (.ok (.term (.str path) op w), t') := by
    unfold compile Store.depth
    rw [Action.execute_get_bind, execute_compileAt_term hspec hpath hsymbol, hop.prepare w]
    rfl
  unfold ask
  rw [Action.execute_bind_of_ok hsingle, Action.execute_bind_of_ok hcompile, Expression.test,
    Action.execute_bind_of_ok hfound, Action.execute_look, Operator.test_eq_answer _ hop hv hw]

end

/-! ## Shorthands -/

namespace Collection

variable {caller : Caller} {a : Address} {c : Collection} {xs : List Value} {vs : Nat → Value}
  {w : Value} {path : String} {s t : State}

/-- The values that the items of a list have at a path, by position. -/
def ValuesAt (path : String) (xs : List Value) (vs : Nat → Value) (s : State) : Prop :=
  ∀ i (hi : i < xs.length), ∃ u, (Path.value xs[i] (.str path)).execute s = (.ok (vs i), u)

section

variable (hholds : s.store.Holds a c xs) (hwhole : s.Whole) (hroot : s.store.Rooted)
  (hpath : Query.isOperatorName path = false) (hvalues : ValuesAt path xs vs s)
  (hvs : ∀ i < xs.length, (vs i).IsNumber ∨ (vs i).IsText) (hw : w.IsNumber ∨ w.IsText)

include hholds hwhole hroot hvalues hvs hw

/-- Filtering by an operator that compares picks by its answers about the values at the path. -/
theorem filterM_satisfies_compares {op : Operator} (hop : op.Compares) (ht : s.Later t) :
    ∃ u, (xs.filterM (satisfies path op w)).execute t =
      (.ok (pick (fun i => op.answer (vs i) w) xs), u) ∧ t.Later u := by
  refine filterM_pick fun u hu i hi => ?_
  obtain ⟨m, hm⟩ := Value.exists_measure (hvs i hi)
  obtain ⟨x, hrun⟩ := hvalues i hi
  obtain ⟨y, hfound, hy⟩ := Path.value_later hwhole hroot
    (hwhole.made_of_cell? hholds.list (List.getElem_mem hi)) (Value.isConstant_of_measure? hm) hrun
    (ht.trans hu)
  refine ⟨y, execute_drawing ?_, hy⟩
  rw [Action.execute_bind_of_ok hfound, Action.execute_look,
    Operator.test_eq_answer _ hop (hvs i hi) hw]

include hpath

/-- The shorthand with a sign of an operator that compares keeps the items that it answers yes
about. -/
theorem gives_select_compares {sign symbol : String} {op : Operator}
    (hown : c.fields.lookup Method.filter.name = none)
    (hsign : Query.signOperator? (.str sign) = some symbol)
    (hsymbol : Operator.ofSymbol? symbol = some op) (hop : op.Compares) (ht : s.Later t) :
    Gives (select caller a [.str path, .str sign, w])
      (pick (fun i => op.answer (vs i) w) xs) t := by
  have hlater := hholds.extends ht.grows.extends
  obtain ⟨spec, t', hsingle, ht', -⟩ := Query.single_ok path symbol w t
  obtain ⟨u, hfilter, hu⟩ := filterM_satisfies_compares hholds hwhole hroot hvalues hvs hw hop
    (ht.trans ht')
  have hprepared : (prepared path symbol op w).execute t = (.ok w, t') := by
    unfold prepared
    rw [Action.execute_bind_of_ok hsingle, hop.prepare w]
    rfl
  refine (selects_of_filter hlater ht' ?_ hfilter hu).1
  rw [execute_select_satisfying caller w hlater hown hsign hsymbol hpath,
    Action.execute_bind_of_ok hprepared]

end

/-! ## Main statement -/

/-- The operators for equality and order are consistent.  About an item with a number or a text at
a path, and an operand that is a number or a text, the queries of the operators that compare are
answered, and the answers fit together (`Operator.Consistent`).  On a collection by whose own
`filter` the items are kept, the shorthand with a sign keeps the items about which its operator
answers yes, and so does the one without a sign for equality.  Hence the sign for "at least" keeps
what the sign for "greater" and the shorthand for equality keep together, where no item has a truth
value at the path that is compared with the number that it counts as, or the other way around. -/
theorem orders_consistent (hwhole : s.Whole) (hroot : s.store.Rooted)
    (hpath : Query.isOperatorName path = false) (hw : w.IsNumber ∨ w.IsText) :
    (∀ item v u, s.Made item → (Path.value item (.str path)).execute s = (.ok v, u) →
      v.IsNumber ∨ v.IsText →
      Operator.Consistent v w (Operator.answer · v w) ∧
      ∀ validators index symbol op t, Operator.ofSymbol? symbol = some op → op.Compares →
        s.Later t → ∃ u, (Query.ask caller validators path symbol w item index).execute t =
          (.ok (op.answer v w), u)) ∧
    ∀ a c xs vs, s.store.Holds a c xs → c.fields.lookup Method.filter.name = none →
      ValuesAt path xs vs s → (∀ i < xs.length, (vs i).IsNumber ∨ (vs i).IsText) →
      ∀ t, s.Later t →
        (∀ sign symbol op, Query.signOperator? (.str sign) = some symbol →
          Operator.ofSymbol? symbol = some op → op.Compares →
          Gives (select caller a [.str path, .str sign, w])
            (pick (fun i => op.answer (vs i) w) xs) t) ∧
        Gives (select caller a [.str path, w])
          (pick (fun i => Operator.answer .equal (vs i) w) xs) t ∧
        ((∀ i < xs.length, ¬ (vs i).Crossed w) →
          Gives (select caller a [.str path, .str ">=", w])
            (pick
              (fun i => Operator.answer .greater (vs i) w || Operator.answer .equal (vs i) w) xs)
            t) := by
  refine ⟨fun item v u hitem hrun hv => ⟨Operator.consistent_answer hv hw, ?_⟩, ?_⟩
  · intro validators index symbol op t hsymbol hop ht
    obtain ⟨u, hask, -⟩ := Query.ask_ok validators index hwhole hroot hitem hpath hrun hv hw hsymbol
      hop ht
    exact ⟨u, hask⟩
  · intro a c xs vs hholds hown hvalues hvs t ht
    have hsigns : ∀ sign symbol op, Query.signOperator? (.str sign) = some symbol →
        Operator.ofSymbol? symbol = some op → op.Compares →
        Gives (select caller a [.str path, .str sign, w])
          (pick (fun i => op.answer (vs i) w) xs) t :=
      fun sign symbol op hsign hsymbol hop =>
        gives_select_compares hholds hwhole hroot hpath hvalues hvs hw hown hsign hsymbol hop ht
    refine ⟨hsigns, ?_, fun hcrossed => ?_⟩
    · rw [select_pair]
      exact hsigns "=" "$eq" .equal (by decide +kernel) (by decide +kernel) (.inl rfl)
    · have hatLeast := hsigns ">=" "$gte" .greaterOrEqual (by decide +kernel) (by decide +kernel)
        (.inr ⟨.greaterEqual, rfl⟩)
      have hsame : pick (fun i => Operator.answer .greaterOrEqual (vs i) w) xs =
          pick (fun i => Operator.answer .greater (vs i) w || Operator.answer .equal (vs i) w)
            xs := by
        refine pick_congr fun i hi => Bool.eq_iff_iff.mpr ?_
        rw [(Operator.consistent_answer (hvs i hi) hw).greaterOrEqual, Bool.or_eq_true]
        exact or_congr_right (or_iff_left (hcrossed i hi))
      rw [← hsame]
      exact hatLeast

/-- Five is lower than six, and of three numbers those that are at least six are those that are
greater than six or equal to it. -/
theorem orders_sixes :
    Operator.Consistent (.int 5) (.int 6) (Operator.answer · (.int 5) (.int 6)) ∧
    (∃ u, (Query.ask apply (.ref ⟨3⟩) "" "$lt" (.int 6) (.int 5) 0).execute threeNumbers =
      (.ok true, u)) ∧
    Gives (select apply ⟨5⟩ [.str "", .str ">=", .int 6]) [.int 6] threeNumbers := by
  have hnumber : ∀ n, (Value.int n).IsNumber ∨ (Value.int n).IsText := fun n =>
    .inl ⟨_, rfl, rfl⟩
  have hholds : threeNumbers.store.Holds ⟨5⟩ _ [.int 5, .int 6, .int 5] := ⟨rfl, rfl⟩
  obtain ⟨hitem, hlist⟩ := @orders_consistent apply (.int 6) "" threeNumbers threeNumbers_whole
    threeNumbers_rooted (by decide +kernel) (hnumber 6)
  obtain ⟨hconsistent, hask⟩ := hitem (.int 5) (.int 5) threeNumbers trivial rfl (hnumber 5)
  have hcases : ∀ i < [Value.int 5, .int 6, .int 5].length, i = 0 ∨ i = 1 ∨ i = 2 := by
    intro i hi
    simp at hi
    omega
  have hvalues : ValuesAt "" [.int 5, .int 6, .int 5] (fun i => if i = 1 then .int 6 else .int 5)
      threeNumbers := by
    intro i hi
    rcases hcases i hi with rfl | rfl | rfl <;> exact ⟨_, rfl⟩
  obtain ⟨-, -, hatLeast⟩ := hlist ⟨5⟩ _ _ _ hholds rfl hvalues
    (fun i hi => by rcases hcases i hi with rfl | rfl | rfl <;> exact hnumber _) threeNumbers
    (.refl _)
  have hanswer : Operator.answer .lower (.int 5) (.int 6) = true := by decide +kernel
  refine ⟨hconsistent, ?_, ?_⟩
  · rw [← hanswer]
    exact hask _ 0 "$lt" .lower threeNumbers (by decide +kernel) (.inr ⟨.less, rfl⟩) (.refl _)
  · have hgives := hatLeast fun i hi hcrossed => by
      rcases hcases i hi with rfl | rfl | rfl <;> exact hcrossed.1 rfl
    exact hgives

/-- A truth value is at least the number that it counts as, but neither greater nor equal, and the
sign for "at least" keeps it where the two others do not.  And in place of a collection, the
function that a patch has put there gives the number of entries of the query. -/
theorem orders_crossed_patched :
    (∃ answers, ((["$gte", "$gt", "$eq"].mapM fun symbol =>
        Query.ask apply (.ref ⟨3⟩) "" symbol (.int 1) (.bool true) 0).execute threeNumbers).1 =
      .ok answers ∧ answers = [true, false, false]) ∧
    (∃ sizes, ((do
        let atLeast ← select apply ⟨5⟩ [.str "", .str ">=", .int 1]
        let greater ← select apply ⟨5⟩ [.str "", .str ">", .int 1]
        let equal ← select apply ⟨5⟩ [.str "", .int 1]
        [atLeast, greater, equal].mapM fun v => Action.look (Store.length · v)).execute
          (holding [.bool true] everySecond)).1 = .ok sizes ∧ sizes = [1, 0, 0]) ∧
    ∃ v, ((select apply ⟨5⟩ [.str "", .str ">=", .int 1]).execute patched).1 = .ok v ∧
      v.index? = some 1 := by
  decide +kernel

end Collection

end Recordset
