import Recordset.Proofs.Collection.Selection
import Recordset.Proofs.Ownership.Confined
import Recordset.Proofs.Query.Shorthand
set_option autoImplicit false

/-!
# Conditions on the value at a path

A shorthand with a comparison sign keeps the items whose value at a path satisfies the operator of
the sign (`Collection.satisfies`).  The value is the one that a method finds which takes the path as
a key, with one exception: a path that starts with the sign of operators is refused in a query, the
path that names the item itself included.

`Collection.select_satisfying` is the main statement.
-/

namespace Recordset

open Recordset.Action

namespace Action

variable {α : Type}

/-- Filtering a list asks for its first element, and then filters the rest. -/
theorem filterM_cons (p : α → Action Bool) (x : α) (xs : List α) :
    (x :: xs).filterM p = (do
      let b ← p x
      let kept ← xs.filterM p
      return if b then x :: kept else kept) := by
  have hcollected : ∀ (ys collected : List α), ys.filterAuxM p collected =
      (do return (← ys.filterAuxM p []) ++ collected) := by
    intro ys
    induction ys with
    | nil => intro collected; simp [List.filterAuxM]
    | cons y ys ih =>
      intro collected
      simp only [List.filterAuxM, bind_assoc]
      refine bind_congr fun b => ?_
      rw [ih, ih (cond b [y] [])]
      cases b <;> simp
  unfold List.filterM
  simp only [List.filterAuxM, bind_assoc, pure_bind]
  refine bind_congr fun b => ?_
  rw [hcollected]
  cases b <;> simp

/-- Filtering keeps what each of its questions keeps. -/
theorem obeys_filterM {R : State → State → Prop} [State.Base R] {p : α → Action Bool}
    (hp : ∀ x, Obeys R (p x)) (xs : List α) : Obeys R (xs.filterM p) := by
  induction xs with
  | nil => exact obeys_pure _
  | cons x xs ih =>
    rw [filterM_cons]
    exact obeys_bind (hp x) fun b => obeys_bind ih fun kept => obeys_pure _

/-- What is kept is part of what is filtered. -/
theorem sublist_of_filterM {p : α → Action Bool} :
    ∀ {xs kept : List α} {s t : State}, (xs.filterM p).execute s = (.ok kept, t) →
      kept.Sublist xs := by
  intro xs
  induction xs with
  | nil =>
    intro kept s t h
    cases h
    exact .refl []
  | cons x xs ih =>
    intro kept s t h
    rw [filterM_cons] at h
    obtain ⟨b, u, -, h⟩ := execute_bind_ok h
    obtain ⟨rest, v, hrest, h⟩ := execute_bind_ok h
    cases h
    cases b with
    | true => exact (ih hrest).cons_cons x
    | false => exact (ih hrest).cons x

/-- All elements of a list satisfy a condition exactly when filtering keeps the list. -/
theorem allM_true_iff {p : α → Action Bool} :
    ∀ {xs : List α} {s t : State},
      (xs.allM p).execute s = (.ok true, t) ↔ (xs.filterM p).execute s = (.ok xs, t) := by
  intro xs
  induction xs with
  | nil =>
    intro s t
    constructor <;> intro h <;> cases h <;> rfl
  | cons x xs ih =>
    intro s t
    rw [List.allM_cons, filterM_cons]
    constructor
    · intro h
      obtain ⟨b, u, hx, h⟩ := execute_bind_ok h
      cases b with
      | false => cases h
      | true =>
        rw [execute_bind_of_ok hx, execute_bind_of_ok (ih.mp h)]
        rfl
    · intro h
      obtain ⟨b, u, hx, h⟩ := execute_bind_ok h
      obtain ⟨kept, v, hrest, h⟩ := execute_bind_ok h
      cases b with
      | false =>
        obtain rfl : kept = x :: xs := (Prod.mk.inj h).1 |> Except.ok.inj
        exact absurd (sublist_of_filterM hrest).length_le (Nat.not_succ_le_self _)
      | true =>
        obtain ⟨hkept, rfl⟩ := Prod.mk.inj h
        obtain rfl : kept = xs := List.tail_eq_of_cons_eq (Except.ok.inj hkept)
        rw [execute_bind_of_ok hx]
        exact ih.mpr hrest

/-- Where filtering comes to its end, asking whether all satisfy the condition does. -/
theorem allM_ok_of_filterM_ok {p : α → Action Bool} :
    ∀ {xs kept : List α} {s t : State}, (xs.filterM p).execute s = (.ok kept, t) →
      ∃ all u, (xs.allM p).execute s = (.ok all, u) := by
  intro xs
  induction xs with
  | nil => exact fun {_ s _} _ => ⟨true, s, rfl⟩
  | cons x xs ih =>
    intro kept s t h
    rw [filterM_cons] at h
    obtain ⟨b, u, hx, h⟩ := execute_bind_ok h
    obtain ⟨rest, v, hrest, -⟩ := execute_bind_ok h
    rw [List.allM_cons, execute_bind_of_ok hx]
    cases b with
    | false => exact ⟨false, u, rfl⟩
    | true => exact ih hrest

end Action

namespace Collection

variable {caller : Caller} {a : Address} {c : Collection} {xs : List Value} {s : State}
  {e : Expression} {p : Value → Action Bool}

/-! ## Matching by a condition on the item -/

/-- Matching is filtering when an expression asks for a condition on the item alone. -/
theorem execute_matching (hlists : s.store.Lists a xs)
    (htest : ∀ item i, drawing (e.test caller item i) = p item)
    (hp : ∀ item, Obeys State.Extends (p item)) :
    (matching caller e a).execute s = (xs.filterM p).execute s := by
  have hmatching : matching caller e a = visit a [] fun kept item _ => do
      return .next (if ← p item then kept ++ [item] else kept) := by
    unfold matching
    show visit a [] _ = _
    refine congrArg (visit a []) (funext fun kept => funext fun item => funext fun i => ?_)
    dsimp only
    rw [htest, bind_assoc]
    refine bind_congr fun b => ?_
    cases b <;> rfl
  have hvisit : ∀ (ys kept : List Value) (i : Nat),
      visitList (fun kept item _ => do
        return .next (if ← p item then kept ++ [item] else kept)) i kept ys =
      (do return kept ++ (← ys.filterM p)) := by
    intro ys
    induction ys with
    | nil => intro kept i; simp [visitList, List.filterM, List.filterAuxM]
    | cons y ys ih =>
      intro kept i
      rw [visitList, filterM_cons]
      simp only [bind_assoc, pure_bind, ih]
      refine bind_congr fun b => bind_congr fun rest => ?_
      cases b <;> simp
  rw [hmatching, execute_visit hlists]
  · rw [hvisit]
    simp
  · intro kept item i t ht
    exact ht.extends (obeys_bind (hp item) (fun b => obeys_pure _) t)

/-- So is asking whether all items match. -/
theorem execute_allMatch (hlists : s.store.Lists a xs)
    (htest : ∀ item i, drawing (e.test caller item i) = p item)
    (hp : ∀ item, Obeys State.Extends (p item)) :
    (allMatch caller e a).execute s = (xs.allM p).execute s := by
  have hvisit : ∀ (ys : List Value) (i : Nat),
      visitList (fun _ item i => do
        if ← drawing (e.test caller item i) then return .next true else return .done false)
        i true ys = ys.allM p := by
    intro ys
    induction ys with
    | nil => exact fun _ => rfl
    | cons y ys ih =>
      intro i
      rw [visitList, htest, List.allM_cons, bind_assoc]
      refine bind_congr fun b => ?_
      cases b with
      | false => rfl
      | true => exact ih (i + 1)
  unfold allMatch
  rw [execute_visit hlists, hvisit]
  intro held item i t ht
  refine ht.extends (obeys_bind (htest item i ▸ hp item) (fun b => ?_) t)
  cases b <;> exact obeys_pure _

/-! ## Shorthands -/

/-- Whether the value at a path satisfies an operator with an operand, for an item that is drawn. -/
def satisfies (path : String) (op : Operator) (operand item : Value) : Action Bool :=
  drawing do
    let found ← Path.value item (.str path)
    Action.look fun s => op.test s found operand

/-- Makes the query of a shorthand, and checks and keeps its operand. -/
def prepared (path symbol : String) (op : Operator) (operand : Value) : Action Value := do
  let _ ← Query.single (.str path) symbol operand
  op.prepare operand

variable {path symbol sign : String} {op : Operator} {operand : Value}

theorem obeys_satisfies (path : String) (op : Operator) (operand item : Value) :
    Obeys State.Extends (satisfies path op operand item) :=
  obeys_drawing (obeys_bind (Path.obeys_value item _) fun _ => obeys_look _)

theorem obeys_prepared (path symbol : String) (op : Operator) (operand : Value) :
    Obeys State.Extends (prepared path symbol op operand) :=
  obeys_bind (Query.obeys_single _ _ _) fun _ => Operator.obeys_prepare op operand

theorem drawing_test_term (path : String) (op : Operator) (operand item : Value) (i : Int) :
    drawing (Expression.test caller item i (.term (.str path) op operand)) =
      satisfies path op operand item := by
  rw [Expression.test]
  rfl

/-- All signs but the one for inequality stand for operators that compare. -/
theorem exists_operator_of_sign (hsign : Query.signOperator? (.str sign) = some symbol)
    (hne : sign ≠ "!=") : ∃ op, Operator.ofSymbol? symbol = some op := by
  unfold Query.signOperator? at hsign
  obtain ⟨entry, hentry, rfl⟩ := Option.map_eq_some_iff.mp hsign
  have hmem := List.mem_of_find?_eq_some hentry
  obtain rfl : entry.1 = sign := by simpa using List.find?_some hentry
  have hall : ∀ e ∈ Query.signs, e.1 ≠ "!=" → (Operator.ofSymbol? e.2).isSome = true := by
    decide +kernel
  exact Option.isSome_iff_exists.mp (hall entry hmem hne)

theorem ofShorthand_of_sign (hsign : Query.signOperator? (.str sign) = some symbol)
    (path operand : Value) :
    Query.ofShorthand [path, .str sign, operand] = Query.single path symbol operand := by
  unfold Query.ofShorthand
  dsimp only
  rw [hsign]

/-- Without a sign a shorthand asks for equality. -/
theorem select_pair (caller : Caller) (a : Address) (path operand : Value) :
    select caller a [path, operand] = select caller a [path, .str "=", operand] := by
  have hsign : Query.signOperator? (.str "=") = some "$eq" := by decide +kernel
  unfold select
  rw [ofShorthand_of_sign hsign]
  rfl

/-- The query of a shorthand compiles to one term after its operand has been checked. -/
theorem execute_ofShorthand_compile {β : Type} (hcell : s.store.cell? a = some (.collection c))
    (hsign : Query.signOperator? (.str sign) = some symbol)
    (hop : Operator.ofSymbol? symbol = some op) (hpath : Query.isOperatorName path = false)
    (f : Expression → Action β) :
    (do f (← compile caller a (← Query.ofShorthand [.str path, .str sign, operand]))).execute s =
      (do
        let operand ← prepared path symbol op operand
        f (.term (.str path) op operand)).execute s := by
  obtain ⟨spec, t, hsingle, ht, -, hspec⟩ := Query.single_ok path symbol operand s
  unfold prepared
  rw [ofShorthand_of_sign hsign, bind_assoc, Action.execute_bind_of_ok hsingle,
    Action.execute_bind_of_ok hsingle]
  have hcompile : (compile caller a spec).execute t =
      (do return .term (.str path) op (← op.prepare operand) : Action Expression).execute t := by
    rw [execute_compile (ht.grows.cells a _ hcell)]
    unfold Query.compile Store.depth
    rw [Action.execute_get_bind]
    exact Query.execute_compileAt_term hspec hpath hop _
  rw [execute_bind_left hcompile, bind_assoc]
  simp only [pure_bind]

/-- A collection that answers by its own `filter` keeps the items that match the query of a
shorthand. -/
theorem execute_select (hholds : s.store.Holds a c xs)
    (hown : c.fields.lookup Method.filter.name = none) (args : List Value) :
    (select caller a args).execute s =
      (do
        let e ← compile caller a (← Query.ofShorthand args)
        derived a (← matching caller e a)).execute s := by
  refine execute_bind_congr fun spec t hrun => ?_
  exact execute_through ((grows_ofShorthand hrun).cells a _ hholds.cell) hown _ _

/-- A shorthand keeps the items whose value at its path satisfies its operator. -/
theorem execute_select_satisfying (caller : Caller) (operand : Value)
    (hholds : s.store.Holds a c xs) (hown : c.fields.lookup Method.filter.name = none)
    (hsign : Query.signOperator? (.str sign) = some symbol)
    (hop : Operator.ofSymbol? symbol = some op) (hpath : Query.isOperatorName path = false) :
    (select caller a [.str path, .str sign, operand]).execute s =
      (do
        let operand ← prepared path symbol op operand
        derived a (← xs.filterM (satisfies path op operand))).execute s := by
  rw [execute_select hholds hown, execute_ofShorthand_compile hholds.cell hsign hop hpath]
  refine execute_bind_congr fun kept t hrun => execute_bind_left ?_ _
  have ht := (obeys_prepared path symbol op operand).of_execute hrun
  exact execute_matching ⟨c, hholds.extends ht⟩ (drawing_test_term path op kept)
    (obeys_satisfies path op kept)

/-- Asking all items is asking whether the value of each satisfies the operator. -/
theorem execute_every_satisfying (caller : Caller) (operand : Value) (hholds : s.store.Holds a c xs)
    (hsign : Query.signOperator? (.str sign) = some symbol)
    (hop : Operator.ofSymbol? symbol = some op) (hpath : Query.isOperatorName path = false) :
    (every caller a [.str path, .str sign, operand]).execute s =
      (do
        let operand ← prepared path symbol op operand
        return .bool (← xs.allM (satisfies path op operand)) : Action Value).execute s := by
  show (do
    let e ← compile caller a (← Query.ofShorthand [.str path, .str sign, operand])
    return .bool (← allMatch caller e a) : Action Value).execute s = _
  rw [execute_ofShorthand_compile hholds.cell hsign hop hpath]
  refine execute_bind_congr fun kept t hrun => execute_bind_left ?_ _
  have ht := (obeys_prepared path symbol op operand).of_execute hrun
  exact execute_allMatch ⟨c, hholds.extends ht⟩ (drawing_test_term path op kept)
    (obeys_satisfies path op kept)

section

variable {prepare : Action Value} {p : Value → Value → Action Bool}

/-- All items satisfy a condition exactly when a collection of all of them is derived. -/
theorem all_true_iff_gives (hholds : s.store.Holds a c xs) (hprepare : Obeys State.Extends prepare)
    (hp : ∀ operand item, Obeys State.Extends (p operand item)) :
    (∃ t, (do
      let operand ← prepare
      return .bool (← xs.allM (p operand)) : Action Value).execute s = (.ok (.bool true), t)) ↔
    Gives (do
      let operand ← prepare
      derived a (← xs.filterM (p operand))) xs s := by
  constructor
  · rintro ⟨t, h⟩
    obtain ⟨operand, u, hkept, h⟩ := execute_bind_ok h
    obtain ⟨all, v, hall, h⟩ := execute_bind_ok h
    cases h
    have hfilter := allM_true_iff.mp hall
    have hu : s.Extends u := hprepare.of_execute hkept
    have hv : s.Extends t := hu.trans ((obeys_filterM (hp operand) xs).of_execute hfilter)
    refine (gives_derived (hholds.extends hv).cell xs).of_extends hv ?_
    rw [execute_bind_of_ok hkept, execute_bind_of_ok hfilter]
  · rintro ⟨b, d, t, h, -, hb, -, -⟩
    obtain ⟨operand, u, hkept, h⟩ := execute_bind_ok h
    obtain ⟨kept, v, hfilter, h⟩ := execute_bind_ok h
    have hv : s.Extends v :=
      (hprepare.of_execute hkept).trans ((obeys_filterM (hp operand) xs).of_execute hfilter)
    obtain ⟨b', d', w, hderived, -, hb', -⟩ := derived_ok (hholds.extends hv).cell kept
    rw [hderived] at h
    cases h
    obtain rfl : d' = d := by
      have hsame := hb'.cell.symm.trans hb.cell
      cases hsame
      rfl
    obtain rfl : kept = xs := by
      have hsame := hb'.list.symm.trans hb.list
      cases hsame
      rfl
    refine ⟨v, ?_⟩
    rw [execute_bind_of_ok hkept, execute_bind_of_ok (allM_true_iff.mpr hfilter)]
    rfl

/-- Where a collection is derived, it is known whether all items satisfy the condition. -/
theorem all_ok_of_derived {v : Value} {t : State} (h : (do
      let operand ← prepare
      derived a (← xs.filterM (p operand))).execute s = (.ok v, t)) :
    ∃ held u, (do
      let operand ← prepare
      return .bool (← xs.allM (p operand)) : Action Value).execute s = (.ok (.bool held), u) := by
  obtain ⟨operand, u, hkept, h⟩ := execute_bind_ok h
  obtain ⟨kept, w, hfilter, -⟩ := execute_bind_ok h
  obtain ⟨all, x, hall⟩ := allM_ok_of_filterM_ok hfilter
  refine ⟨all, x, ?_⟩
  rw [execute_bind_of_ok hkept, execute_bind_of_ok hall]
  rfl

end

/-- A shorthand is refused whose path starts with the sign of operators. -/
theorem execute_operatorPath {β : Type} (caller : Caller) (operand : Value)
    (hcell : s.store.cell? a = some (.collection c))
    (hsign : Query.signOperator? (.str sign) = some symbol)
    (hop : Operator.ofSymbol? symbol = some op) (hpath : Query.isOperatorName path = true)
    (f : Expression → Action β) :
    ∃ q t, (do f (← compile caller a (← Query.ofShorthand [.str path, .str sign, operand]))).execute
        s = (.error (.refusal q), t) ∧ q.family = .query := by
  obtain ⟨spec, t, hsingle, ht, -, hspec⟩ := Query.single_ok path symbol operand s
  obtain ⟨q, hrefused, hq⟩ := Query.execute_compile_operatorPath caller
    (.ref c.validators) hspec hpath hop
  refine ⟨q, t, ?_, hq⟩
  rw [ofShorthand_of_sign hsign, Action.execute_bind_of_ok hsingle]
  exact Action.execute_bind_of_error ((execute_compile (ht.grows.cells a _ hcell)).trans hrefused)

/-! ## Main statement -/

/-- A comparison sign stands for an operator, and a shorthand with it keeps the items whose value at
its path satisfies this operator with the operand, after the operand has been checked; all items
satisfy it exactly when all are kept.  The value is the one that a method finds which takes the path
as a key.  This holds on a collection in whose `filter` no patch has put anything else and for every
path that does not start with the sign of operators; such a path is refused. -/
theorem select_satisfying (hholds : s.store.Holds a c xs)
    (hown : c.fields.lookup Method.filter.name = none)
    (hsign : Query.signOperator? (.str sign) = some symbol) (hne : sign ≠ "!=") :
    ∃ op, Operator.ofSymbol? symbol = some op ∧ ∀ (path : String) (operand : Value),
      (Query.isOperatorName path = false →
        (select caller a [.str path, .str sign, operand]).execute s =
          (do
            let operand ← prepared path symbol op operand
            derived a (← xs.filterM (satisfies path op operand))).execute s ∧
        (every caller a [.str path, .str sign, operand]).execute s =
          (do
            let operand ← prepared path symbol op operand
            return .bool (← xs.allM (satisfies path op operand)) : Action Value).execute s ∧
        ((∃ t, (every caller a [.str path, .str sign, operand]).execute s =
            (.ok (.bool true), t)) ↔
          Gives (select caller a [.str path, .str sign, operand]) xs s) ∧
        ∀ v t, (select caller a [.str path, .str sign, operand]).execute s = (.ok v, t) →
          ∃ held u, (every caller a [.str path, .str sign, operand]).execute s =
            (.ok (.bool held), u)) ∧
      (Query.isOperatorName path = true →
        (∃ q t, (select caller a [.str path, .str sign, operand]).execute s =
          (.error (.refusal q), t) ∧ q.family = .query) ∧
        ∃ q t, (every caller a [.str path, .str sign, operand]).execute s =
          (.error (.refusal q), t) ∧ q.family = .query) ∧
      ∀ t item i, (Key.of t (.str path)).find caller item i = Path.value item (.str path) ∧
        sortKey caller (Key.of t (.str path)) item = Path.value item (.str path) := by
  obtain ⟨op, hop⟩ := exists_operator_of_sign hsign hne
  refine ⟨op, hop, fun path operand => ⟨fun hpath => ?_, fun hpath => ?_, fun t item i => ?_⟩⟩
  · have hselect := execute_select_satisfying caller operand hholds hown hsign hop hpath
    have hevery := execute_every_satisfying caller operand hholds hsign hop hpath
    refine ⟨hselect, hevery, ?_, fun v t h => ?_⟩
    · rw [hevery, all_true_iff_gives hholds (obeys_prepared path symbol op operand)
        (obeys_satisfies path op)]
      unfold Gives
      rw [hselect]
    · rw [hevery]
      rw [hselect] at h
      exact all_ok_of_derived h
  · refine ⟨?_, execute_operatorPath caller operand hholds.cell hsign hop hpath _⟩
    obtain ⟨q, t, hrefused, hq⟩ := execute_operatorPath caller operand
      hholds.cell hsign hop hpath fun e => do derived a (← matching caller e a)
    exact ⟨q, t, (execute_select hholds hown _).trans hrefused, hq⟩
  · exact ⟨rfl, rfl⟩

/-- Three numbers are all at least five, and the path that names the item itself is refused. -/
theorem select_atLeastFive :
    Gives (select apply ⟨5⟩ [.str "", .str ">=", .int 5]) [.int 5, .int 6, .int 5] threeNumbers ∧
      ∃ q t, (select apply ⟨5⟩ [.str Path.itself, .str ">=", .int 5]).execute threeNumbers =
        (.error (.refusal q), t) ∧ q.family = .query := by
  have hholds : threeNumbers.store.Holds ⟨5⟩ _ [.int 5, .int 6, .int 5] := ⟨rfl, rfl⟩
  obtain ⟨op, -, h⟩ := @select_satisfying apply _ _ _ _ _ _ hholds rfl
    (show Query.signOperator? (.str ">=") = some "$gte" by decide +kernel) (by decide)
  refine ⟨((h "" (.int 5)).1 (by decide +kernel)).2.2.1.mp ⟨_, rfl⟩, ?_⟩
  exact ((h Path.itself (.int 5)).2.1 (by decide +kernel)).1

/-- The item itself is found at the path that names it, and is greater than five, and a query at
this path is refused; and in place of the items, the function that a patch has put there gives the
number of entries of the query. -/
theorem select_itself_patched :
    (∃ kept, ((do
        let kept ← [Value.int 5, .int 6, .int 5].filterM (satisfies Path.itself .greater (.int 5))
        return kept.filterMap Value.index?).execute threeNumbers).1 = .ok kept ∧ kept = [6]) ∧
    (∃ e, ((select apply ⟨5⟩ [.str Path.itself, .str ">", .int 5]).execute threeNumbers).1 =
      .error e ∧ ∃ q, e = .refusal q ∧ q.family = .query) ∧
    (∃ kept, ((do
        let kept ← [Value.int 1, .int 2].filterM (satisfies "" .greater (.int 1))
        return kept.filterMap Value.index?).execute patched).1 = .ok kept ∧ kept = [2]) ∧
    ∃ v, ((select apply ⟨5⟩ [.str "", .str ">", .int 1]).execute patched).1 = .ok v ∧
      v.index? = some 1 := by
  refine ⟨by decide +kernel, ⟨_, rfl, _, rfl, rfl⟩, by decide +kernel, by decide +kernel⟩

end Collection

end Recordset
