import Recordset.Proofs.Action
set_option autoImplicit false

/-!
# The calls that an action makes

An action that takes a way of calling functions can be watched from outside: whatever way it is
given, it does the same up to its first call, and what it does then depends on nothing but how that
call ends.  A call that ends the program shows that it is made: the action ends there and then.
`Action.Makes` lists the calls that an action comes to, in order, when functions are called in a
certain way.

An action that makes no call is silent, and no action is that comes to one (`ComesTo.not_silent`);
which call an action comes to first is determined (`ComesTo.call_eq`).  In a sequence, the calls of
the second part follow those of the first (`Makes.bind_of_ok`).
-/

namespace Recordset

/-- A function that is called, and the arguments that it is given. -/
structure FunctionCall where
  function : Value
  args : List Value

namespace Action

variable {α β : Type}

/-- An action makes no call: the way of calling makes no difference to it. -/
def Silent (x : Caller → Action α) (s : State) : Prop :=
  ∀ c d : Caller, (x c).execute s = (x d).execute s

/-- Whatever the way of calling, an action comes to one call in a certain state, and goes on from
how the call ends.  It goes no further when the call ends the program. -/
structure ComesTo (x : Caller → Action α) (s : State) (k : FunctionCall) (t : State)
    (rest : Except Error Value → Caller → Action α) : Prop where
  call : ∀ c : Caller, (x c).execute s =
    (rest ((c k.function k.args).execute t).1 c).execute ((c k.function k.args).execute t).2
  exit : ∀ (code : Nat) (c : Caller) (u : State),
    (rest (.error (.exit code)) c).execute u = (.error (.exit code), u)

/-- The calls that an action makes from a state, in order, when functions are called in the way of
`caller`. -/
inductive Makes (caller : Caller) : (Caller → Action α) → State → List FunctionCall → Prop where
  | silent {x : Caller → Action α} {s : State} (h : Silent x s) : Makes caller x s []
  | call {x : Caller → Action α} {s t : State} {k : FunctionCall}
    {rest : Except Error Value → Caller → Action α} {ks : List FunctionCall}
    (h : ComesTo x s k t rest)
    (hrest : Makes caller (rest ((caller k.function k.args).execute t).1)
      ((caller k.function k.args).execute t).2 ks) : Makes caller x s (k :: ks)

variable {caller : Caller} {x y : Caller → Action α} {s t : State} {ks ls : List FunctionCall}

/-- What comes to a call ends where the call ends the program. -/
theorem ComesTo.execute_exit {k : FunctionCall} {rest : Except Error Value → Caller → Action α}
    (h : ComesTo x s k t rest) {c : Caller} {code : Nat}
    (hexit : (c k.function k.args).execute t = (.error (.exit code), t)) :
    (x c).execute s = (.error (.exit code), t) := by
  rw [h.call, hexit]
  exact h.exit code c t

/-- An action that comes to a call is not silent. -/
theorem ComesTo.not_silent {k : FunctionCall} {rest : Except Error Value → Caller → Action α}
    (h : ComesTo x s k t rest) : ¬Silent x s := by
  intro hsilent
  let ending (code : Nat) : Caller := fun _ _ => throw (.exit code)
  have hzero : (x (ending 0)).execute s = (.error (.exit 0), t) := h.execute_exit rfl
  have hone : (x (ending 1)).execute s = (.error (.exit 1), t) := h.execute_exit rfl
  rw [hsilent (ending 0) (ending 1), hone] at hzero
  cases hzero

open Classical in
/-- Which call an action comes to first, and in which state, is determined. -/
theorem ComesTo.call_eq {k l : FunctionCall} {u : State}
    {rest more : Except Error Value → Caller → Action α} (hk : ComesTo x s k t rest)
    (hl : ComesTo x s l u more) : k = l ∧ t = u := by
  -- the call `k` ends the program in one way, and any other call does in another way
  let ending : Caller := fun f args =>
    if (⟨f, args⟩ : FunctionCall) = k then throw (.exit 0) else throw (.exit 1)
  have hfirst : (x ending).execute s = (.error (.exit 0), t) :=
    hk.execute_exit (by simp [ending])
  by_cases hkl : k = l
  · subst hkl
    have hsecond : (x ending).execute s = (.error (.exit 0), u) :=
      hl.execute_exit (by simp [ending])
    rw [hfirst] at hsecond
    exact ⟨rfl, congrArg Prod.snd hsecond⟩
  · have hsecond : (x ending).execute s = (.error (.exit 1), u) :=
      hl.execute_exit (by simp [ending, Ne.symm hkl])
    rw [hfirst] at hsecond
    cases hsecond

/-- Actions that do the same make the same calls. -/
theorem Makes.congr (h : Makes caller x s ks)
    (hxy : ∀ c, (y c).execute t = (x c).execute s) : Makes caller y t ks := by
  cases h with
  | silent hsilent =>
    refine .silent fun c d => ?_
    rw [hxy, hxy]
    exact hsilent c d
  | call hcall hrest =>
    refine .call ⟨fun c => ?_, hcall.exit⟩ hrest
    rw [hxy]
    exact hcall.call c

/-- A single call, and nothing else. -/
theorem makes_call (f : Value) (args : List Value) (s : State) :
    Makes caller (fun c => c f args) s [⟨f, args⟩] := by
  let rest : Except Error Value → Caller → Action Value := fun r _ => ofExcept r
  have hcall : ComesTo (fun c => c f args) s ⟨f, args⟩ s rest :=
    ⟨fun c => by rw [execute_ofExcept], fun code c u => rfl⟩
  exact .call hcall (.silent fun c d => rfl)

/-- What comes to a call still does so when it is followed by something else. -/
theorem ComesTo.bind {k : FunctionCall} {rest : Except Error Value → Caller → Action α}
    (h : ComesTo x s k t rest) (f : α → Caller → Action β) :
    ComesTo (fun c => x c >>= fun a => f a c) s k t fun r c => rest r c >>= fun a => f a c := by
  constructor
  · intro c
    rw [execute_bind, h.call c, ← execute_bind]
  · intro code c u
    rw [execute_bind, h.exit code c u]

/-- The second part of a sequence makes its calls after those of the first. -/
theorem Makes.bind_of_ok {f : α → Caller → Action β} {a : α} (hx : Makes caller x s ks)
    (hrun : (x caller).execute s = (.ok a, t)) (hf : Makes caller (f a) t ls) :
    Makes caller (fun c => x c >>= fun a => f a c) s (ks ++ ls) := by
  induction hx with
  | silent hsilent =>
    refine hf.congr fun c => ?_
    rw [execute_bind_of_ok ((hsilent c caller).trans hrun)]
  | call hcall _ ih => exact .call (hcall.bind f) (ih ((hcall.call caller).symm.trans hrun))

/-- A sequence whose first part fails makes no more calls than that part. -/
theorem Makes.bind_of_error {f : α → Caller → Action β} {e : Error} (hx : Makes caller x s ks)
    (hrun : (x caller).execute s = (.error e, t)) :
    Makes caller (fun c => x c >>= fun a => f a c) s ks := by
  induction hx with
  | silent hsilent =>
    refine .silent fun c d => ?_
    rw [execute_bind_of_error ((hsilent c caller).trans hrun),
      execute_bind_of_error ((hsilent d caller).trans hrun)]
  | call hcall _ ih => exact .call (hcall.bind f) (ih ((hcall.call caller).symm.trans hrun))

/-- A sequence that makes no call in its second part, whatever the first part gives. -/
theorem Makes.bind_silent {f : α → Caller → Action β} (hx : Makes caller x s ks)
    (hf : ∀ a t, Silent (f a) t) : Makes caller (fun c => x c >>= fun a => f a c) s ks := by
  cases hrun : (x caller).execute s with
  | mk r t =>
    cases r with
    | ok a => simpa using hx.bind_of_ok hrun (.silent (hf a t))
    | error e => exact hx.bind_of_error hrun

end Action

end Recordset
