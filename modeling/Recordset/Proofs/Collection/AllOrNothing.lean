import Recordset.Proofs.Collection.KeyOrder
import Recordset.Proofs.Ownership.Reachable
set_option autoImplicit false

/-!
# All or nothing

Dropping items, dropping fields and sorting by key gather first what the collection is to hold, and
then put it into the list at once.  Whatever goes wrong does so while it is gathered: a query that
does not compile, a path that no mapping can look up, a callback that fails at one of the items,
keys that have no order among them.  Putting it into the list does not fail.  So with callbacks
that change nothing, a call that fails has changed nothing.

`Collection.fails_untouched` is the main statement.
-/

namespace Recordset

open Recordset.Action

/-- Calls of a function that changes nothing are not refused. -/
theorem Caller.tame_eq {caller : Caller} {f : Value}
    (h : ∀ args, Obeys State.Gentle (caller f args)) : caller.tame f = caller f := by
  funext args
  refine ext_execute fun s => ?_
  have hgentle : s.Gentle ((caller f args).execute s).2 := h args s
  unfold Caller.tame
  rw [execute_get_bind, if_pos hgentle]

/-! ## Comparators -/

namespace Store

/-- A value tells how many arguments it takes: the cells that say so have been made. -/
def Grounded (s : Store) : Value → Prop
  | .ref a => a.index < s.size
  | .method _ a _ => a.index < s.size
  | .extension _ f _ => s.Grounded f
  | _ => True

/-- A value that a sort takes for a comparator: it can be called with two items. -/
def IsComparator (s : Store) (v : Value) : Prop := s.isCallable v ∧ 2 ≤ Callback.arity s v

end Store

namespace State

variable {s t : State}

theorem Evolves.methodSignature? {c d : Cell} (h : c.Becomes d) (name : String) :
    Callback.methodSignature? d name = Callback.methodSignature? c name := by
  cases h <;> rfl

/-- A value takes as many arguments later as it takes now. -/
theorem Evolves.positional? (h : s.Evolves t) : ∀ {v : Value}, s.store.Grounded v →
    Callback.positional? t.store v = Callback.positional? s.store v := by
  intro v
  induction v with
  | ref a =>
    intro hv
    obtain ⟨d, hd, hcd⟩ := h.cells a _ (Array.getElem?_eq_getElem hv)
    have hc : s.store.cell? a = some s.store.cells[a.index] := Array.getElem?_eq_getElem hv
    simp only [Callback.positional?, Store.view, hc, hd]
    generalize s.store.cells[a.index] = c at hcd
    cases hcd <;> rfl
  | method i a name =>
    intro hv
    obtain ⟨d, hd, hcd⟩ := h.cells a _ (Array.getElem?_eq_getElem hv)
    have hc : s.store.cell? a = some s.store.cells[a.index] := Array.getElem?_eq_getElem hv
    simp only [Callback.positional?, hc, hd, Option.bind_some, methodSignature? hcd]
  | extension i f receiver ih =>
    intro hv
    simp only [Callback.positional?, ih hv]
  | _ => exact fun _ => rfl

/-- What is no comparator becomes none. -/
theorem Evolves.isComparator (h : s.Evolves t) {v : Value} (hv : s.store.Grounded v)
    (hcompares : t.store.IsComparator v) : s.store.IsComparator v := by
  have hknown : s.store.Knows v := by
    cases v with
    | ref a => exact hv
    | _ => trivial
  obtain ⟨hcallable, harity⟩ := hcompares
  refine ⟨(h.isCallable hknown).symm.trans hcallable, ?_⟩
  unfold Callback.arity at harity ⊢
  rwa [h.positional? hv] at harity

end State

namespace Collection

variable {caller : Caller} {a : Address} {c : Collection} {xs : List Value} {s t : State}
  {e : Error}

/-! ## Gathering and then filling -/

/-- An action that gathers the items of a collection before it puts them into its list fails only
while it gathers them. -/
theorem extends_of_gathering {gather : Action (List Value)} (hgather : Obeys State.Extends gather)
    (hholds : s.store.Holds a c xs)
    (h : (do
      setItems a (← gather)
      return Value.ref a : Action Value).execute s = (.error e, t)) : s.Extends t := by
  rcases execute_bind_cases h with ⟨_, -, hfails⟩ | ⟨ys, u, hgathered, hfill⟩
  · exact hgather.of_execute hfails
  · have hu : s.Extends u := hgather.of_execute hgathered
    obtain ⟨d, w, hset, -⟩ := setItems_ok (hholds.extends hu) ys
    rw [execute_bind_of_ok hset] at hfill
    cases hfill

section

variable (hcaller : ObeysCaller State.Extends caller) (hholds : s.store.Holds a c xs)
include hcaller hholds

theorem extends_of_delete_error {spec : Value}
    (h : (delete caller a spec).execute s = (.error e, t)) : s.Extends t := by
  let gather : Action (List Value) := do
    let test ← compile caller a spec
    fold a [] fun kept item i => do
      if ← test.test caller item i then return kept else return kept ++ [item]
  have hgather : Obeys State.Extends gather := by
    refine obeys_bind (obeys_compile hcaller a spec) fun test => ?_
    grind
  have hdelete : delete caller a spec = (do
      setItems a (← gather)
      return Value.ref a) := by
    simp only [gather, bind_assoc]
    rfl
  rw [hdelete] at h
  exact extends_of_gathering hgather hholds h

theorem extends_of_sortByKey_error {key : Key} {d : Direction}
    (h : (do
      sortByKey caller a key d
      return Value.ref a : Action Value).execute s = (.error e, t)) : s.Extends t := by
  let gather : Action (List Value) := do
    let found ← fold a {} fun found v _ => noteKey caller key found v
    let sorted ← Action.look fun s => sortKeyed s d found.keyed
    return sorted.map (·.2) ++ found.missing
  have hnote : ∀ found v, Obeys State.Extends (noteKey caller key found v) := by
    intro found v
    unfold noteKey
    grind
  have hgather : Obeys State.Extends gather := by
    refine obeys_bind (obeys_fold (fun found v _ => hnote found v) a _) fun found => ?_
    grind
  have hsort : sortByKey caller a key d = gather >>= setItems a := by
    simp only [gather, bind_assoc, pure_bind]
    rfl
  rw [hsort, bind_assoc] at h
  exact extends_of_gathering hgather hholds h

theorem extends_of_sort_error {keyOrCmp direction : Value} (hthere : s.store.Grounded keyOrCmp)
    (hkey : ¬s.store.IsComparator keyOrCmp)
    (h : (sort caller a keyOrCmp direction).execute s = (.error e, t)) : s.Extends t := by
  unfold sort at h
  rcases execute_bind_cases h with ⟨_, -, hfails⟩ | ⟨d, u, hdirection, hsort⟩
  · exact (obeys_directionOf hcaller a direction).of_execute hfails
  · have hu : s.Extends u := (obeys_directionOf hcaller a direction).of_execute hdirection
    have hlater : ¬u.store.IsComparator keyOrCmp :=
      fun hcompares => hkey (hu.evolves.isComparator hthere hcompares)
    rw [execute_get_bind] at hsort
    unfold Store.IsComparator at hlater
    dsimp only at hsort
    rw [if_neg hlater, execute_bind_of_ok (rfl : (keyOf keyOrCmp).execute u = (.ok _, u))] at hsort
    exact hu.trans (extends_of_sortByKey_error hcaller (hholds.extends hu) hsort)

end

/-- Dropping fields calls nothing. -/
theorem extends_of_forget_error {keys : List Value} (hholds : s.store.Holds a c xs)
    (h : (forget a keys).execute s = (.error e, t)) : s.Extends t := by
  let gather : Action (List Value) := do
    let paths := namedPaths (← get).store keys
    fold a [] fun changed item _ => do
      return changed ++ [← withoutAll paths item]
  have hgather : Obeys State.Extends gather := by
    grind
  exact extends_of_gathering hgather hholds h

/-! ## Main statement -/

/-- A call to drop items, to drop fields or to sort by key that fails has changed nothing: the
collection holds the same items in the same order, and all items have the same fields. -/
theorem fails_untouched (hholds : s.store.Holds a c xs) :
    (∀ spec e t, (s.Undisturbed caller fun f => delete f a spec) →
      (delete caller a spec).execute s = (.error e, t) → t.store.Holds a c xs ∧ s.Extends t) ∧
    (∀ keys e t, (forget a keys).execute s = (.error e, t) →
      t.store.Holds a c xs ∧ s.Extends t) ∧
    ∀ keyOrCmp direction e t, s.store.Grounded keyOrCmp → ¬s.store.IsComparator keyOrCmp →
      (s.Undisturbed caller fun f => sort f a keyOrCmp direction) →
      (sort caller a keyOrCmp direction).execute s = (.error e, t) →
      t.store.Holds a c xs ∧ s.Extends t := by
  have htame : ObeysCaller State.Extends caller.tame := obeysCaller_of_gentle caller.obeys_tame
  refine ⟨fun spec e t hquiet hrun => ?_, fun keys e t hrun => ?_,
    fun keyOrCmp direction e t hthere hkey hquiet hrun => ?_⟩
  · have ht := extends_of_delete_error htame hholds (hquiet.symm.trans hrun)
    exact ⟨hholds.extends ht, ht⟩
  · have ht := extends_of_forget_error hholds hrun
    exact ⟨hholds.extends ht, ht⟩
  · have ht := extends_of_sort_error htame hholds hthere hkey (hquiet.symm.trans hrun)
    exact ⟨hholds.extends ht, ht⟩

/-! ## Callbacks that disturb nothing -/

variable {f g : Caller} {v : Value}

/-- Dropping the items that a callback chooses calls nothing else. -/
theorem execute_delete_congr (hholds : s.store.Holds a c xs) (hcallable : s.store.isCallable v)
    (h : f v = g v) : (delete f a v).execute s = (delete g a v).execute s := by
  have hcompile : ∀ caller, (compile caller a v).execute s = (.ok (.predicate v), s) := by
    intro caller
    rw [execute_compile hholds.cell]
    unfold Query.compile Store.depth
    rw [execute_get_bind, Query.compileAt, execute_get_bind]
    dsimp only
    rw [if_pos hcallable]
    rfl
  unfold delete
  rw [execute_bind_of_ok (hcompile f), execute_bind_of_ok (hcompile g)]
  simp only [Expression.test, Callback.call, h]

/-- Sorting by the keys that a callback gives calls nothing else. -/
theorem sort_congr (h : f v = g v) (a : Address) : sort f a v .null = sort g a v .null := by
  have hcomparing : ∀ d, sortComparing f a v d = sortComparing g a v d := by
    have hbefore : before f v = before g v := by
      unfold before
      rw [h]
    intro d
    unfold sortComparing
    rw [hbefore]
  have hkey : ∀ s d, sortByKey f a (Key.of s v) d = sortByKey g a (Key.of s v) d := by
    have hfound : ∀ s, sortKey f (Key.of s v) = sortKey g (Key.of s v) := by
      intro s
      unfold Key.of
      split
      · funext item
        simp only [sortKey, Callback.call, h]
      · split <;> rfl
    intro s d
    unfold sortByKey
    rw [hfound s]
  unfold sort keyOf
  simp only [bind_assoc, pure_bind, hcomparing, hkey]
  rfl

/-- A collection of a text and a number, and a list that no mapping can look up. -/
def mixed : State where
  store := { cells := #[
    .policy {},
    .registry {},
    .generator ⟨0⟩,
    .dict [],
    .list [.str "ab", .ref ⟨6⟩, .int 5],
    .collection
      { list := ⟨4⟩, validators := ⟨3⟩, policy := ⟨0⟩, registry := ⟨1⟩, generator := ⟨2⟩ },
    .dict [(.str "n", .int 1)],
    .list [.ref ⟨8⟩],
    .list []] }

theorem obeys_len (args : List Value) : Obeys State.Gentle (apply (.builtin .len) args) := by
  show Obeys State.Gentle (Builtin.call (applyAt 299) .len ⟨args, []⟩)
  unfold Builtin.call
  match args with
  | [] => exact obeys_fault _
  | [v] => exact obeys_bind (obeys_look _) fun n => obeys_pure _
  | _ :: _ :: _ => exact obeys_fault _

/-- A query and a key that fail at the last item, and a path that fails at the second one. -/
theorem fails_mixed :
    (∃ e t, (delete apply ⟨5⟩ (.builtin .len)).execute mixed = (.error e, t) ∧
      t.store.Lists ⟨5⟩ [.str "ab", .ref ⟨6⟩, .int 5] ∧ mixed.Extends t) ∧
    (∃ e t, (forget ⟨5⟩ [.str "m", .ref ⟨7⟩]).execute mixed = (.error e, t) ∧
      t.store.Lists ⟨5⟩ [.str "ab", .ref ⟨6⟩, .int 5] ∧ mixed.Extends t) ∧
    ∃ e t, (sort apply ⟨5⟩ (.builtin .len) .null).execute mixed = (.error e, t) ∧
      t.store.Lists ⟨5⟩ [.str "ab", .ref ⟨6⟩, .int 5] ∧ mixed.Extends t := by
  have hholds : mixed.store.Holds ⟨5⟩ _ [.str "ab", .ref ⟨6⟩, .int 5] := ⟨rfl, rfl⟩
  have htame : apply.tame (.builtin .len) = apply (.builtin .len) := Caller.tame_eq obeys_len
  obtain ⟨hdelete, hforget, hsort⟩ := @fails_untouched apply _ _ _ _ hholds
  refine ⟨?_, ?_, ?_⟩
  · obtain ⟨e, t, hrun⟩ : ∃ e t, (delete apply ⟨5⟩ (.builtin .len)).execute mixed =
        (.error e, t) := ⟨_, _, rfl⟩
    obtain ⟨hlater, ht⟩ :=
      hdelete _ e t (execute_delete_congr hholds rfl htame.symm) hrun
    exact ⟨e, t, hrun, ⟨_, hlater⟩, ht⟩
  · obtain ⟨e, t, hrun⟩ : ∃ e t, (forget ⟨5⟩ [.str "m", .ref ⟨7⟩]).execute mixed =
        (.error e, t) := ⟨_, _, rfl⟩
    obtain ⟨hlater, ht⟩ := hforget _ e t hrun
    exact ⟨e, t, hrun, ⟨_, hlater⟩, ht⟩
  · obtain ⟨e, t, hrun⟩ : ∃ e t, (sort apply ⟨5⟩ (.builtin .len) .null).execute mixed =
        (.error e, t) := ⟨_, _, rfl⟩
    have hkey : ¬mixed.store.IsComparator (.builtin .len) := fun h => absurd h.2 (by decide)
    have hquiet : mixed.Undisturbed apply fun f => sort f ⟨5⟩ (.builtin .len) .null := by
      unfold State.Undisturbed
      dsimp only
      rw [sort_congr htame]
    obtain ⟨hlater, ht⟩ := hsort (.builtin .len) .null e t trivial hkey hquiet hrun
    exact ⟨e, t, hrun, ⟨_, hlater⟩, ht⟩

end Collection

end Recordset
