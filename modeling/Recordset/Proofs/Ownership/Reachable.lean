import Mathlib.Logic.Relation
import Recordset.Proofs.Ownership.HandedOut
import Recordset.Proofs.Ownership.Sorted
import Recordset.Proofs.Ownership.Update
import Recordset.Script.Eval
set_option autoImplicit false

/-!
# Collections share no list

A program makes values, makes collections, calls their methods and makes requests to them
(`State.Step`).  As long as no callback changes anything and no item that is a collection is
patched, all collections own their lists in every state that the program can reach.  So a change of
one collection is seen through no other one, nor in a list that has been given to a collection or
has come from one, and all other methods change nothing (`State.SharesNothing`).

`State.Reachable.sharesNothing` is the main statement.
-/

namespace Recordset

open Recordset.Action

/-! ## Callbacks that change nothing -/

open Classical in
/-- Calls a function unless the call changes something, which is refused. -/
noncomputable def Caller.tame (caller : Caller) : Caller := fun f args => do
  let s ← get
  if s.Gentle ((caller f args).execute s).2 then caller f args else Action.fault .runtime

theorem Caller.obeys_tame (caller : Caller) : ObeysCaller State.Gentle caller.tame := by
  intro f args s
  unfold Caller.tame
  refine obeysFrom_get_bind ?_
  split
  · assumption
  · exact obeys_fault _ s

/-- No callback changes anything: an action comes to the same when the calls that do are refused. -/
def State.Undisturbed (s : State) (caller : Caller) (x : Caller → Action Value) : Prop :=
  (x caller).execute s = (x caller.tame).execute s

namespace State

/-! ## What a program does -/

/-- One thing that a program does. -/
inductive Step : State → State → Prop where
  /-- a value that is no collection is made -/
  | make (s : State) {c : Cell} (hc : c.isCollection = false) :
    Step s ((Action.make c).execute s).2
  /-- a value that is no collection is changed -/
  | write {s : State} {a : Address} {c d : Cell} (hc : s.store.cell? a = some c)
    (hcd : c.Becomes d) (hplain : c.isCollection = false) :
    Step s ((Action.write a d).execute s).2
  /-- a collection is made -/
  | construct (s : State) (items validators : Value) (policy registry : Option Address) :
    Step s ((Collection.construct items validators policy registry).execute s).2
  /-- a method of a collection is called that is no update -/
  | perform {s : State} {caller : Caller} {a : Address} {call : Call}
    (hmethod : call.method ≠ .update)
    (hquiet : s.Undisturbed caller fun f => Collection.perform f a call) :
    Step s ((Collection.perform caller a call).execute s).2
  /-- a collection is updated: it comes to the same when calls that change anything and patches of
  collections are refused -/
  | update {s : State} {caller : Caller} {a : Address} {args : List Value}
    (hquiet : (Collection.update caller a args).execute s =
      (Collection.updateSparing caller.tame a args).execute s) :
    Step s ((Collection.update caller a args).execute s).2
  /-- a function is called that changes nothing -/
  | call {s : State} {caller : Caller} {f : Value} {args : List Value}
    (hquiet : s.Gentle ((caller f args).execute s).2) : Step s ((caller f args).execute s).2
  /-- a request is made to a value -/
  | answer {s : State} {caller : Caller} {r : Request} {v : Value} {args : List Value}
    (hquiet : s.Undisturbed caller fun f => r.answer f v args) :
    Step s ((r.answer caller v args).execute s).2

/-- A state can be reached from the start of a session. -/
def Reachable (s : State) : Prop := Relation.ReflTransGen Step .initial s

variable {s t : State}

/-- Collections keep to their lists in every step. -/
theorem Step.respects (h : s.Step t) : s.Respects t := by
  have htame : ∀ caller : Caller, ObeysCaller Respects caller.tame := fun caller =>
    obeysCaller_of_gentle caller.obeys_tame
  cases h with
  | make hc => exact s.respects_alloc hc
  | write hc hcd hplain =>
    refine respects_write hc hcd fun e f he _ => ?_
    subst he
    cases hplain
  | construct items validators policy registry =>
    exact Collection.obeys_construct items validators policy registry s
  | @perform caller a call hmethod hquiet =>
    rw [hquiet]
    exact Collection.obeys_perform (htame caller) hmethod a s
  | @update caller a args hquiet =>
    rw [hquiet]
    exact Collection.obeys_updateSparing (htame caller) a args s
  | call hquiet => exact hquiet.related
  | @answer caller r v args hquiet =>
    rw [hquiet]
    exact Request.obeys_answer (htame caller) r v args s

theorem ownsLists_initial : initial.store.OwnsLists := by
  have hnone : ∀ (a : Address) (c : Collection),
      initial.store.cell? a ≠ some (.collection c) := by
    rintro ⟨i⟩ c hc
    rcases i with _ | _ | i
    · cases hc
    · cases hc
    · cases hc
  exact ⟨fun h => absurd h (hnone _ _), fun h => absurd h (hnone _ _),
    fun h => absurd h (hnone _ _)⟩

/-- Collections that own their lists do so for good. -/
theorem ownsLists_of_steps (h : Relation.ReflTransGen Step s t) (howns : s.store.OwnsLists) :
    t.store.OwnsLists := by
  induction h with
  | refl => exact howns
  | tail _ hstep ih => exact hstep.respects.owns ih

/-- A loose list stays loose. -/
theorem loose_of_steps (h : Relation.ReflTransGen Step s t) {b : Address}
    (hb : s.store.Loose b) : t.store.Loose b := by
  induction h with
  | refl => exact hb
  | tail _ hstep ih => exact hstep.respects.loose ih

/-! ## What a collection shares -/

/-- Nothing has changed but one collection: the others hold the items that they held, loose lists
hold what they held, and the entries, fields and attributes of everything are what they were. -/
structure ChangesOnly (a : Address) (s t : State) : Prop where
  others : ∀ {b : Address} {d : Collection}, b ≠ a → s.store.cell? b = some (.collection d) →
    t.store.cell? b = some (.collection d) ∧ t.store.items d = s.store.items d
  lists : ∀ {b : Address} {xs : List Value}, s.store.Loose b →
    s.store.cell? b = some (.list xs) → t.store.cell? b = some (.list xs)
  fields : ∀ {b : Address} {c : Cell}, s.store.cell? b = some c → c.isCollection = false →
    (∀ xs, c ≠ .list xs) → ∃ d, t.store.cell? b = some d ∧ c.Stays d
  marks : t.store.marks = s.store.marks

theorem Confined.changesOnly {a : Address} {c : Collection} (h : Confined a s t)
    (howns : s.store.OwnsLists) (hc : s.store.cell? a = some (.collection c)) :
    ChangesOnly a s t := by
  have hspares := h.spares hc
  refine ⟨fun hba hd => hspares.collection howns hc hba hd,
    fun hb hxs => hspares.loose hc hb hxs, fun {b e} he hplain hlist => ?_, hspares.marks⟩
  refine hspares.cells he ?_
  rintro (rfl | ⟨d, hd, rfl⟩)
  · rw [hc] at he
    cases he
    cases hplain
  · obtain ⟨xs, hxs⟩ := howns.list hd
    rw [hxs] at he
    exact hlist xs (Option.some.inj he).symm

/-- A request that changes a collection is confined to it. -/
theorem confined_answer {caller : Caller} {a : Address} {c : Collection} {r : Request}
    (hc : s.store.cell? a = some (.collection c)) (hchanging : r ∈ Request.changing)
    (args : List Value) : Confined a s ((r.answer caller (.ref a) args).execute s).2 := by
  have hassign : ∀ key x, ObeysFrom (Confined a) s (Action.assign (.ref a) key x) :=
    fun key x => Collection.obeysFrom_assign hc key x
  have hremove : ∀ key, ObeysFrom (Confined a) s (Action.remove (.ref a) key) :=
    fun key => Collection.obeysFrom_remove hc key
  simp only [Request.changing, List.mem_cons, List.not_mem_nil, or_false] at hchanging
  rcases hchanging with rfl | rfl
  · rcases args with _ | ⟨key, _ | ⟨x, _ | ⟨y, rest⟩⟩⟩
    · exact obeys_fault _ s
    · exact obeys_fault _ s
    · exact obeysFrom_bind (hassign key x) fun _ => obeys_pure _
    · exact obeys_fault _ s
  · rcases args with _ | ⟨key, _ | ⟨x, rest⟩⟩
    · exact obeys_fault _ s
    · exact obeysFrom_bind (hremove key) fun _ => obeys_pure _
    · exact obeys_fault _ s

/-- A method that changes no collection changes nothing. -/
theorem extends_perform {caller : Caller} {a : Address} {c : Collection} {call : Call}
    (howns : s.store.OwnsLists) (hc : s.store.cell? a = some (.collection c))
    (hcaller : ObeysCaller Gentle caller) (hreading : call.method ∉ Method.changing) :
    s.Extends ((Collection.perform caller a call).execute s).2 := by
  by_cases hordering : call.method ∈ Method.ordering
  · obtain ⟨method, values⟩ := call
    simp only [Method.ordering, List.mem_cons, List.not_mem_nil, or_false] at hordering
    have hsorted := Collection.extends_sorted hcaller howns hc
    have hfault : s.Extends ((Action.fault .type : Action Value).execute s).2 := obeys_fault _ s
    rcases hordering with rfl | rfl
    · rcases values with _ | ⟨key, _ | ⟨x, rest⟩⟩
      · exact hfault
      · exact hsorted key .asc
      · exact hfault
    · rcases values with _ | ⟨key, _ | ⟨x, rest⟩⟩
      · exact hfault
      · exact hsorted key .desc
      · exact hfault
  · exact Collection.obeys_perform_of_reading (obeysCaller_of_gentle hcaller) hreading hordering a s

/-- Collections share nothing but items. -/
structure SharesNothing (s : State) : Prop where
  owns : s.store.OwnsLists
  /-- a method that changes a collection changes nothing else, an update excepted -/
  change : ∀ {caller : Caller} {a : Address} {c : Collection} {call : Call},
    s.store.cell? a = some (.collection c) →
    (s.Undisturbed caller fun f => Collection.perform f a call) →
    call.method ∈ Method.changing → call.method ≠ .update →
    ChangesOnly a s ((Collection.perform caller a call).execute s).2
  /-- an item is put into a collection, or dropped from it, without another change -/
  put : ∀ {caller : Caller} {a : Address} {c : Collection} {r : Request} {args : List Value},
    s.store.cell? a = some (.collection c) → r ∈ Request.changing →
    ChangesOnly a s ((r.answer caller (.ref a) args).execute s).2
  /-- every other method changes nothing -/
  read : ∀ {caller : Caller} {a : Address} {c : Collection} {call : Call},
    s.store.cell? a = some (.collection c) →
    (s.Undisturbed caller fun f => Collection.perform f a call) →
    call.method ∉ Method.changing → s.Extends ((Collection.perform caller a call).execute s).2
  /-- every other request changes nothing -/
  ask : ∀ {caller : Caller} {r : Request} {v : Value} {args : List Value},
    (s.Undisturbed caller fun f => r.answer f v args) → r ∉ Request.changing →
    s.Extends ((r.answer caller v args).execute s).2
  /-- a collection is made without a change -/
  construct : ∀ (items validators : Value) (policy registry : Option Address),
    s.Extends ((Collection.construct items validators policy registry).execute s).2
  /-- a list that a program makes is loose -/
  made : ∀ (xs : List Value), ∃ b t, (Action.make (.list xs)).execute s = (.ok (.ref b), t) ∧
    t.store.Loose b
  /-- the lists that come from a collection are loose -/
  handed : ∀ {caller : Caller} {a : Address} {c : Collection} {call : Call} {v : Value}
    {t : State}, s.store.cell? a = some (.collection c) → call.method ∈ Method.listing →
    (Collection.perform caller a call).execute s = (.ok v, t) → s.HandsOut v t
  /-- a loose list stays loose, whatever it is given to -/
  loose : ∀ {b : Address} {t : State}, s.store.Loose b → Relation.ReflTransGen Step s t →
    t.store.Loose b

/-- In every state that a program reaches without a callback that changes anything and without a
patch of an item that is a collection, collections share nothing but items. -/
theorem Reachable.sharesNothing (hs : s.Reachable) : s.SharesNothing := by
  have howns : s.store.OwnsLists := ownsLists_of_steps hs ownsLists_initial
  refine ⟨howns, ?_, ?_, ?_, ?_, ?_, ?_, ?_, fun hb h => loose_of_steps h hb⟩
  · intro caller a c call hc hquiet hchanging hmethod
    have htame : ObeysCaller (Confined a) caller.tame := obeysCaller_of_gentle caller.obeys_tame
    have hconfined : Confined a s ((Collection.perform caller.tame a call).execute s).2 :=
      Collection.obeys_perform_of_changing htame hchanging hmethod s
    rw [hquiet]
    exact hconfined.changesOnly howns hc
  · intro caller a c r args hc hchanging
    exact (confined_answer hc hchanging args).changesOnly howns hc
  · intro caller a c call hc hquiet hreading
    rw [hquiet]
    exact extends_perform howns hc caller.obeys_tame hreading
  · intro caller r v args hquiet hreading
    have htame : ObeysCaller Extends caller.tame := obeysCaller_of_gentle caller.obeys_tame
    rw [hquiet]
    exact Request.obeys_answer_of_reading htame hreading v args s
  · exact fun items validators policy registry =>
      Collection.obeys_construct items validators policy registry s
  · intro xs
    exact ⟨_, _, rfl, (handsOut_of_list howns (Nat.le_refl _) (fun _ _ h => h) xs).loose
      (Nat.le_refl _) (s.store.cell?_alloc _)⟩
  · exact fun hc hcall hrun => Collection.handsOut_perform howns hc hcall hrun

/-- A list of three numbers has been made. -/
def numbered : State := ((Action.make (.list [.int 1, .int 2, .int 3])).execute .initial).2

/-- A collection of three numbers has been made. -/
def collected : State := ((Collection.construct (.ref ⟨2⟩) .null none none).execute numbered).2

/-- The collection has been cut into pieces. -/
def cut : State := ((Collection.perform apply ⟨7⟩ ⟨.chunk, [.int 2]⟩).execute collected).2

/-- The pieces share nothing with each other, nor with the collection that they have been cut
from. -/
theorem sharesNothing_cut : cut.Reachable ∧ cut.SharesNothing := by
  have hcollected : collected.Reachable :=
    (Relation.ReflTransGen.refl.tail (.make initial rfl)).tail
      (.construct numbered (Value.ref ⟨2⟩) .null none none)
  have hcut : cut.Reachable := by
    refine hcollected.tail (Step.perform (by decide) ?_)
    exact Eq.refl ((Collection.chunk ⟨7⟩ (.int 2)).execute collected)
  exact ⟨hcut, hcut.sharesNothing⟩

end State

/-! ## What collections share otherwise -/

namespace Collection

/-- The numbers among the items of a collection. -/
def numbers (a : Address) : Action (List Int) := do
  return (← itemsOf a).filterMap Value.index?

/-- A collection over a list that is made for it. -/
def collectionOf (items : List Value) : Action Address := do
  construct (← make (.list items)) .null none none

/-- Two collections get one list when a patch gives it to both.  The items of the second one before
and after something is pushed onto the first one. -/
def patchedWithList : Action (List Int × List Int) := do
  let first ← collectionOf [.int 1]
  let second ← collectionOf [.int 2]
  let both ← collectionOf [.ref first, .ref second]
  let patch ← make (.dict [(.str "_items", ← make (.list [.int 5]))])
  let _ ← perform apply both ⟨.update, [patch]⟩
  let before ← numbers second
  let _ ← perform apply first ⟨.push, [.int 9]⟩
  return (before, ← numbers second)

/-- A collection is sorted for another one, which a patch has told to use it as its copy.  Its items
before and after. -/
def patchedWithCopy : Action (List Int × List Int) := do
  let sorted ← collectionOf [.int 2, .int 1]
  let patched ← collectionOf []
  let patch ← make (.dict [(.str Method.clone.name,
    ← make (.function (.closure { positional := 0 } (.lit (.ref sorted)) none)))])
  let _ ← perform apply (← collectionOf [.ref patched]) ⟨.update, [patch]⟩
  let before ← numbers sorted
  let _ ← perform apply patched ⟨.sortBy, [.builtin .abs]⟩
  return (before, ← numbers sorted)

/-- The list of an item that is a collection is handed out as the least of the values at a path.
What is in it before and after something is pushed onto the item. -/
def foundAtPath : Action (List Int × List Int) := do
  let item ← collectionOf [.int 1]
  let list ← perform apply (← collectionOf [.ref item]) ⟨.min, [.str "_items"]⟩
  let before := (← iterate list).filterMap Value.index?
  let _ ← perform apply item ⟨.push, [.int 9]⟩
  return (before, (← iterate list).filterMap Value.index?)

/-- What is collected from an item that can be iterated once, and then from the same item again. -/
def collectedTwice : Action (List Int × List Int) := do
  let item ← make (.iterator [.int 1, .int 2])
  let a ← collectionOf [item]
  let collected : Action (List Int) := do
    match ← perform apply a ⟨.collect, [item]⟩ with
    | .ref b => numbers b
    | _ => return []
  return (← collected, ← collected)

/-- Collections share more than items when a patch has reached into one: a list, or a change that a
method makes.  A path can find the list of a collection, which is not handed out for use elsewhere,
and an item that can be iterated once is used up. -/
theorem shares_more_than_items :
    (patchedWithList.execute .initial).1.toOption = some ([5], [5, 9]) ∧
      (patchedWithCopy.execute .initial).1.toOption = some ([2, 1], [1, 2]) ∧
      (foundAtPath.execute .initial).1.toOption = some ([1], [1, 9]) ∧
      (collectedTwice.execute .initial).1.toOption = some ([1, 2], []) := by
  refine ⟨?_, ?_, ?_, ?_⟩
  · decide +kernel
  · decide +kernel
  · decide +kernel
  · decide +kernel

end Collection

end Recordset
