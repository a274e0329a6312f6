import Recordset.Collection.Transform
import Recordset.Proofs.Collection.AllOrNothing
import Recordset.Proofs.Collection.Visit
import Recordset.Proofs.Query.Normal
set_option autoImplicit false

/-!
# Calling a callback with each item

`each` walks the items that were there when it started, whatever the callback does to the collection
meanwhile: to its items, by adding, removing or sorting them, or to anything else.  `Visits` tells
such a walk call by call, each in the state that the one before has left; it ends with the items, or
with the first call that gives false or fails (`each_visits`).
-/

namespace Recordset.Collection

open Recordset.Action

variable {caller : Caller} {f : Value}

/-- A call after which the walk goes on: it has not failed, and has not given false. -/
def GoesOn (r : Except Error Value) : Prop := ∃ v, r = .ok v ∧ v ≠ .bool false

/-- The first `n` of some items are visited, from an index on: a callback is called with each in the
state that the call before has left, and all calls but the last go on.  The last one does not, or
there are no more items. -/
structure Visits (caller : Caller) (f : Value) (first : Nat) (xs : List Value) (n : Nat)
    (states : Nat → State) (answers : Nat → Except Error Value) : Prop where
  bound : n ≤ xs.length
  call : ∀ i x, i < n → xs[i]? = some x →
    (caller f (Expression.predicateCall x (first + i : Nat) f (states i)).args).execute (states i) =
      (answers i, states (i + 1))
  goesOn : ∀ i, i + 1 < n → GoesOn (answers i)
  ends : n = xs.length ∨ ∃ i, n = i + 1 ∧ ¬ GoesOn (answers i)

/-- What is left of a walk after so many calls: nothing to tell, or the failure of the last call. -/
def lastOf (answers : Nat → Except Error Value) : Nat → Except Error Unit
  | 0 => .ok ()
  | i + 1 => (answers i).map fun _ => ()

/-- Calling a callback with an item and its index is the call of a predicate on them. -/
theorem execute_call (x : Value) (i : Nat) (s : State) :
    (Callback.call caller f 2 [x, .int i]).execute s =
      (caller f (Expression.predicateCall x i f s).args).execute s := by
  unfold Callback.call Expression.predicateCall
  rw [execute_get_bind]
  dsimp only
  split
  · rfl
  · rfl

/-- The calls of a walk, each as it is made in its state. -/
def callsOf (f : Value) (first : Nat) (xs : List Value) (states : Nat → State) :
    List FunctionCall :=
  xs.mapIdx fun i x => Expression.predicateCall x (first + i : Nat) f (states i)

theorem callsOf_cons (first : Nat) (x : Value) (xs : List Value) (states : Nat → State) :
    callsOf f first (x :: xs) states =
      Expression.predicateCall x first f (states 0) ::
        callsOf f (first + 1) xs fun i => states (i + 1) := by
  simp only [callsOf, List.mapIdx_cons, Nat.add_zero, Nat.add_assoc, Nat.add_comm 1]

/-- One more thing in front of a sequence. -/
def prepend {α : Type} (a : α) (rest : Nat → α) : Nat → α
  | 0 => a
  | i + 1 => rest i

/-- A call that goes on, and the walk that follows it. -/
theorem Visits.cons {first n : Nat} {x : Value} {xs : List Value} {s : State}
    {r : Except Error Value} {states : Nat → State} {answers : Nat → Except Error Value}
    (hvisits : Visits caller f (first + 1) xs n states answers)
    (hcall : (caller f (Expression.predicateCall x first f s).args).execute s = (r, states 0))
    (hgoesOn : GoesOn r) :
    Visits caller f first (x :: xs) (n + 1) (prepend s states) (prepend r answers) where
  bound := Nat.succ_le_succ hvisits.bound
  call
    | 0, y, _, hy => by
      cases hy
      exact hcall
    | i + 1, y, hi, hy => by
      have hrest := hvisits.call i y (Nat.lt_of_succ_lt_succ hi) (by simpa using hy)
      rwa [Nat.add_assoc, Nat.add_comm 1] at hrest
  goesOn
    | 0, _ => hgoesOn
    | i + 1, hi => hvisits.goesOn i (Nat.lt_of_succ_lt_succ hi)
  ends := by
    obtain hn | ⟨i, hn, hstops⟩ := hvisits.ends
    · exact .inl (congrArg (· + 1) hn)
    · exact .inr ⟨i + 1, congrArg (· + 1) hn, hstops⟩

/-- A walk of one call, which does not go on. -/
theorem visits_one {first : Nat} {x : Value} {xs : List Value} {s t : State}
    {r : Except Error Value}
    (hcall : (caller f (Expression.predicateCall x first f s).args).execute s = (r, t))
    (hstops : ¬ GoesOn r) :
    Visits caller f first (x :: xs) 1 (prepend s fun _ => t) (fun _ => r) where
  bound := Nat.succ_le_succ (Nat.zero_le _)
  call i y hi hy := by
    obtain rfl : i = 0 := Nat.lt_one_iff.mp hi
    cases hy
    exact hcall
  goesOn i hi := absurd hi (by omega)
  ends := .inr ⟨0, rfl, hstops⟩

/-- What follows a call in a walk. -/
def goOn (f : Value) (first : Nat) (xs : List Value) (v : Value) (c : Caller) : Action Unit :=
  match v with
  | .bool false => return
  | _ => eachOf c f first xs

theorem goOn_of_ne {v : Value} (hv : v ≠ .bool false) (first : Nat) (xs : List Value) (c : Caller) :
    goOn f first xs v c = eachOf c f first xs := by
  unfold goOn
  split
  · exact absurd rfl hv
  · rfl

theorem eachOf_cons (c : Caller) (first : Nat) (x : Value) (xs : List Value) :
    eachOf c f first (x :: xs) =
      (Callback.call c f 2 [x, .int first] >>= fun v => goOn f (first + 1) xs v c) := rfl

/-- The walk over a list visits its items, makes the calls of that walk and no others, and ends as
the last of them does. -/
theorem eachOf_visits (f : Value) : ∀ (xs : List Value) (first : Nat) (s : State),
    ∃ n states answers, Visits caller f first xs n states answers ∧ states 0 = s ∧
      Makes caller (fun c => eachOf c f first xs) s (callsOf f first (xs.take n) states) ∧
      (eachOf caller f first xs).execute s = (lastOf answers n, states n) := by
  intro xs
  induction xs with
  | nil =>
    intro first s
    refine ⟨0, fun _ => s, fun _ => .ok .null, ⟨Nat.le_refl 0, fun i _ hi => ?_, fun i hi => ?_,
      .inl rfl⟩, rfl, .silent fun _ _ => rfl, rfl⟩
    · exact absurd hi (Nat.not_lt_zero i)
    · exact absurd hi (Nat.not_lt_zero (i + 1))
  | cons x xs ih =>
    intro first s
    simp only [eachOf_cons]
    have hmakes : Makes caller (fun c => Callback.call c f 2 [x, .int first]) s
        [Expression.predicateCall x first f s] := Expression.makes_predicate caller x first f s
    cases hcall : (Callback.call caller f 2 [x, .int first]).execute s with
    | mk r t =>
    have hanswer := (execute_call x first s).symm.trans hcall
    cases r with
    | error e =>
      have hstops : ¬ GoesOn (.error e) := fun ⟨_, h, _⟩ => nomatch h
      refine ⟨1, _, _, visits_one hanswer hstops, rfl, ?_, ?_⟩
      · rw [List.take_succ_cons, callsOf_cons]
        exact hmakes.bind_of_error hcall
      · rw [execute_bind_of_error hcall]
        rfl
    | ok v =>
      by_cases hv : v = .bool false
      · have hstops : ¬ GoesOn (.ok v) := fun ⟨_, h, hne⟩ => hne ((Except.ok.inj h).symm.trans hv)
        refine ⟨1, _, _, visits_one hanswer hstops, rfl, ?_, ?_⟩
        · rw [List.take_succ_cons, callsOf_cons]
          subst hv
          exact hmakes.bind_of_ok hcall (.silent fun _ _ => rfl)
        · rw [execute_bind_of_ok hcall, hv]
          rfl
      · obtain ⟨n, states, answers, hvisits, hstart, hrest, hrun⟩ := ih (first + 1) t
        refine ⟨n + 1, _, _, hvisits.cons (hstart ▸ hanswer) ⟨v, rfl, hv⟩, rfl, ?_, ?_⟩
        · rw [List.take_succ_cons, callsOf_cons]
          refine hmakes.bind_of_ok hcall (hrest.congr fun c => ?_)
          rw [goOn_of_ne hv]
        · rw [execute_bind_of_ok hcall, goOn_of_ne hv, hrun]
          cases n <;> rfl

/-- A callback takes as many arguments at each call of a walk as it took at the start, where calls
leave what has been made in place. -/
theorem Visits.arity {first n : Nat} {xs : List Value} {states : Nat → State}
    {answers : Nat → Except Error Value} (hvisits : Visits caller f first xs n states answers)
    (hcaller : SteadyCaller caller) (hf : (states 0).store.Grounded f) {i : Nat} (hi : i ≤ n) :
    Callback.arity (states i).store f = Callback.arity (states 0).store f := by
  have hevolves : ∀ i ≤ n, (states 0).Evolves (states i) := by
    intro i
    induction i with
    | zero => exact fun _ => .refl _
    | succ i ih =>
      intro hi
      have hlt := Nat.lt_of_lt_of_le hi hvisits.bound
      have hcall := hvisits.call i _ hi (List.getElem?_eq_getElem hlt)
      exact (ih (Nat.le_of_succ_le hi)).trans (evolves_of_execute (hcaller f _) hcall)
  unfold Callback.arity
  rw [(hevolves i hi).positional? hf]

/-- `each` calls its callback with the items that the collection held at the start and their
indices, each call in the state that the one before has left, up to and including the first that
gives false or fails, and makes no other calls.  Then it gives the collection that it was called
on, or fails as the last call did, and leaves the state that the last call has left. -/
theorem each_visits {a : Address} {xs : List Value} {s : State} (hlists : s.store.Lists a xs)
    (f : Value) : ∃ n states answers, Visits caller f 0 xs n states answers ∧ states 0 = s ∧
      Makes caller (fun c => each c a f) s (callsOf f 0 (xs.take n) states) ∧
      (each caller a f).execute s = ((lastOf answers n).map fun _ => .ref a, states n) ∧
      (SteadyCaller caller → s.store.Grounded f →
        ∀ i ≤ n, Callback.arity (states i).store f = Callback.arity s.store f) := by
  obtain ⟨c, hholds⟩ := hlists
  obtain ⟨n, states, answers, hvisits, rfl, hmakes, hrun⟩ := @eachOf_visits caller f xs 0 s
  refine ⟨n, states, answers, hvisits, rfl, ?_, ?_, fun hcaller hf i => hvisits.arity hcaller hf⟩
  · have hall : Makes caller (fun c => eachOf c f 0 xs >>= fun _ => pure (Value.ref a)) (states 0)
        (callsOf f 0 (xs.take n) states) := hmakes.bind_silent fun _ _ _ _ => rfl
    refine hall.congr fun c => ?_
    unfold each
    rw [execute_bind_of_ok (execute_itemsOf hholds)]
  · unfold each
    rw [execute_bind_of_ok (execute_itemsOf hholds), execute_bind, hrun]
    cases lastOf answers n <;> rfl

/-- A collection of two numbers. -/
def twoNumbers : State where
  store := { cells := #[
    .policy {},
    .registry {},
    .generator ⟨0⟩,
    .dict [],
    .list [.int 7, .int 8],
    .collection
      { list := ⟨4⟩, validators := ⟨3⟩, policy := ⟨0⟩, registry := ⟨1⟩, generator := ⟨2⟩ }] }

/-- Appending to the collection that is walked: both items and their indices are appended, and none
of these is visited. -/
theorem each_push : twoNumbers.store.Lists ⟨5⟩ [.int 7, .int 8] ∧
    ∃ n states answers, Visits apply (.method 0 ⟨5⟩ "push") 0 [.int 7, .int 8] n states answers ∧
      (each apply ⟨5⟩ (.method 0 ⟨5⟩ "push")).execute twoNumbers = (.ok (.ref ⟨5⟩), states n) ∧
      (states n).store.Lists ⟨5⟩ [.int 7, .int 8, .int 7, .int 0, .int 8, .int 1] := by
  have hlists : twoNumbers.store.Lists ⟨5⟩ [.int 7, .int 8] := ⟨_, rfl, rfl⟩
  obtain ⟨n, states, answers, hvisits, -, -, hrun, -⟩ :=
    @each_visits apply _ _ _ hlists (.method 0 ⟨5⟩ "push")
  obtain ⟨t, hpush, ht⟩ : ∃ t, (each apply ⟨5⟩ (.method 0 ⟨5⟩ "push")).execute twoNumbers =
      (.ok (.ref ⟨5⟩), t) ∧
      t.store.Lists ⟨5⟩ [.int 7, .int 8, .int 7, .int 0, .int 8, .int 1] :=
    ⟨_, rfl, ⟨_, rfl, rfl⟩⟩
  have hstate : states n = t := congrArg Prod.snd (hrun.symm.trans hpush)
  exact ⟨hlists, n, states, answers, hvisits, hstate ▸ hpush, hstate ▸ ht⟩

/-- A callback that fails makes the walk fail: a number has no length. -/
theorem each_len : (each apply ⟨5⟩ (.builtin .len)).execute twoNumbers =
      (.error (.fault .type), twoNumbers) ∧
    ¬ ∃ t, (each apply ⟨5⟩ (.builtin .len)).execute twoNumbers = (.ok (.ref ⟨5⟩), t) := by
  have hfails : (each apply ⟨5⟩ (.builtin .len)).execute twoNumbers =
      (.error (.fault .type), twoNumbers) := rfl
  refine ⟨hfails, fun ⟨t, h⟩ => ?_⟩
  rw [hfails] at h
  cases h

end Recordset.Collection
