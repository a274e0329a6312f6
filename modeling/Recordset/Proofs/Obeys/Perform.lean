import Recordset.Proofs.Obeys.Open
set_option autoImplicit false

/-!
# Calls of collections obey

Of the methods of a collection, ten change it (`Method.changing`); the others obey every base that
allows for collections derived from it and for extensions, but for the two that sort a copy.  An
update can reach further than the collection it is called on: it
obeys what its patches obey (`Collection.obeys_updateWith`).  The other nine obey whatever lets that
one be changed.
-/

namespace Recordset

open Recordset.Action

/-- The methods that change the collection that they are called on. -/
def Method.changing : List Method :=
  [.delete, .forget, .pop, .push, .shift, .shuffle, .sort, .splice, .unshift, .update]

/-- The methods that sort a copy of the collection that they are called on. -/
def Method.ordering : List Method := [.sortBy, .sortByDesc]

/-- The methods that reach other collections, or the registry: what is written between texts can be
a collection that is joined to them, and an extension can be registered. -/
def Method.reaching : List Method := [.join, .extend]

/-- The requests that change the container that they are made to. -/
def Request.changing : List Request := [.assign, .remove]

namespace Collection

/-- Updates a collection by another way to find what comes in the place of an item, which is given
what the collection is updated with, the item and its index. -/
def updateWith (caller : Caller) (put : Value → Value → Nat → Action Value) (a : Address)
    (args : List Value) : Action Value := do
  let (spec, patch) ← match args with
    | [patch] => pure (Value.null, patch)
    | [spec, patch] => pure (spec, patch)
    | _ => Action.refuse (.updateArguments args.length)
  let s := (← get).store
  if !s.isCallable patch && !s.isMapping patch then Action.refuse (.notAPatch (s.kind patch))
  else
    let test ← match spec with
      | .null => pure none
      | _ => do pure (some (← compile caller a spec))
    fold a () fun _ item i => do
      if ← concerns caller test item i then
        Action.assign (.ref a) (.int i) (← put patch item i)
    return .ref a

/-- What an update puts in the place of an item is the patched item, or what a callback gives. -/
theorem update_eq_updateWith (caller : Caller) (a : Address) (args : List Value) :
    update caller a args = updateWith caller (updated caller) a args := rfl

section

variable {R : State → State → Prop} [State.Base R] {caller : Caller}
  (hcaller : ObeysCaller R caller)
include hcaller

@[grind ←]
theorem obeys_concerns (test : Option Expression) (item : Value) (index : Nat) :
    Obeys R (concerns caller test item index) := by
  unfold concerns
  grind

/-- The methods that change nothing obey what allows for collections derived from the one that they
are called on, unless they reach further. -/
theorem obeys_perform_of_deriving {c : Call} {a : Address} [State.Deriver R a]
    (hreading : c.method ∉ Method.changing) (hplain : c.method ∉ Method.ordering)
    (hnear : c.method ∉ Method.reaching) : Obeys R (perform caller a c) := by
  have hnone : ∀ m ∈ Method.changing ++ Method.ordering ++ Method.reaching, c.method ≠ m := by
    rintro m hm rfl
    rcases List.mem_append.mp hm with hm | hm
    · exact (List.mem_append.mp hm).elim hreading hplain
    · exact hnear hm
  simp only [Method.changing, Method.ordering, Method.reaching, List.cons_append, List.nil_append,
    List.forall_mem_cons] at hnone
  unfold perform
  split <;> grind

/-- The methods that change nothing obey what allows for derived collections and extensions. -/
theorem obeys_perform_of_reading [∀ b, State.Deriver R b] [State.Extender R] {c : Call}
    (hreading : c.method ∉ Method.changing) (hplain : c.method ∉ Method.ordering) (a : Address) :
    Obeys R (perform caller a c) := by
  by_cases hreaching : c.method ∈ Method.reaching
  · simp only [Method.reaching, List.mem_cons, List.not_mem_nil, or_false] at hreaching
    unfold perform
    split <;> grind
  · exact obeys_perform_of_deriving hcaller hreading hplain hreaching

/-- The methods that change a collection obey what lets it be changed. -/
theorem obeys_perform_of_changing {a : Address} [State.Owner R a] [State.Deriver R a] {c : Call}
    (hchanging : c.method ∈ Method.changing) (hmethod : c.method ≠ .update) :
    Obeys R (perform caller a c) := by
  simp only [Method.changing, List.mem_cons, List.not_mem_nil, or_false] at hchanging
  unfold perform
  split <;> grind

/-- The methods that sort a copy obey what lets every collection be changed. -/
theorem obeys_perform_of_ordering [∀ b, State.Owner R b] {a : Address} [State.Deriver R a]
    {c : Call} (hordering : c.method ∈ Method.ordering) : Obeys R (perform caller a c) := by
  simp only [Method.ordering, List.mem_cons, List.not_mem_nil, or_false] at hordering
  unfold perform
  split <;> grind

/-- All methods but updates obey what lets every collection be changed and derived from. -/
theorem obeys_perform [∀ b, State.Owner R b] [∀ b, State.Deriver R b] [State.Extender R] {c : Call}
    (hmethod : c.method ≠ .update) (a : Address) : Obeys R (perform caller a c) := by
  by_cases hchanging : c.method ∈ Method.changing
  · exact obeys_perform_of_changing hcaller hchanging hmethod
  · by_cases hordering : c.method ∈ Method.ordering
    · exact obeys_perform_of_ordering hcaller hordering
    · exact obeys_perform_of_reading hcaller hchanging hordering a

end

section

variable {F : State → State → Prop} [State.Frame F] [State.Open F] {caller : Caller}
  (hcaller : ObeysCaller F caller)
include hcaller

/-- An update obeys when what comes in the place of an item is found in such a way. -/
theorem obeys_updateWith {put : Value → Value → Nat → Action Value}
    (hput : ∀ patch item i, Obeys F (put patch item i)) (a : Address) (args : List Value) :
    Obeys F (updateWith caller put a args) := by
  have hvisits : ∀ (patch : Value) (test : Option Expression), Obeys F (do
      fold a () fun _ item i => do
        if ← concerns caller test item i then
          Action.assign (.ref a) (.int i) (← put patch item i)
      return Value.ref a) := by
    intro patch test
    refine obeys_bind (obeys_fold (fun _ item i => ?_) a ()) fun _ => obeys_pure _
    refine obeys_bind (obeys_concerns hcaller test item i) fun concerned => ?_
    split
    · exact obeys_bind (hput patch item i) fun v => obeys_assign (.ref a) (.int i) v
    · exact obeys_pure _
  unfold updateWith
  split
  all_goals
    refine obeys_bind (by grind) fun given => obeys_bind obeys_get fun s => ?_
    dsimp only
    split
    · exact obeys_refuse _
    · split
      · exact obeys_bind (obeys_pure _) fun test => hvisits given.2 test
      · refine obeys_bind (obeys_compile hcaller a _) fun e => ?_
        exact obeys_bind (obeys_pure _) fun test => hvisits given.2 test

end

end Collection

namespace Request

section

variable {R : State → State → Prop} [State.Base R] [∀ b, State.Deriver R b] {caller : Caller}
  (hcaller : ObeysCaller R caller)
include hcaller

/-- The requests that change nothing obey what allows for derived collections. -/
theorem obeys_answer_of_reading {r : Request} (hreading : r ∉ Request.changing) (v : Value)
    (args : List Value) : Obeys R (r.answer caller v args) := by
  simp only [Request.changing, List.mem_cons, List.not_mem_nil, or_false, not_or] at hreading
  unfold answer
  split <;> grind

end

/-- A request to a collection that changes nothing obeys what allows for collections derived from
that one. -/
theorem obeys_answer_of_deriving {R : State → State → Prop} [State.Base R] {a : Address}
    [State.Deriver R a] {caller : Caller} (hcaller : ObeysCaller R caller) {r : Request}
    (hreading : r ∉ Request.changing) (args : List Value) :
    Obeys R (r.answer caller (.ref a) args) := by
  simp only [Request.changing, List.mem_cons, List.not_mem_nil, or_false, not_or] at hreading
  unfold answer
  split <;> grind

/-- All requests obey what lets lists and mappings be changed. -/
@[grind ←]
theorem obeys_answer {F : State → State → Prop} [State.Frame F] [State.Open F] {caller : Caller}
    (hcaller : ObeysCaller F caller) (r : Request) (v : Value) (args : List Value) :
    Obeys F (r.answer caller v args) := by
  by_cases hchanging : r ∈ Request.changing
  · simp only [Request.changing, List.mem_cons, List.not_mem_nil, or_false] at hchanging
    unfold answer
    split <;> grind
  · exact obeys_answer_of_reading hcaller hchanging v args

end Request

end Recordset
