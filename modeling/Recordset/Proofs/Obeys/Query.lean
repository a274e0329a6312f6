import Recordset.Proofs.Obeys.Value
set_option autoImplicit false

/-!
# Queries obey

Registering extensions, reading policies, calling callbacks, compiling queries and testing items,
when calls obey.
-/

namespace Recordset

open Recordset.Action

variable {R : State → State → Prop} [State.Base R]

/-! ## Registries and policies -/

namespace Registry

/-- A registry is read without a change. -/
theorem obeysFrom_read_bind {α : Type} {s : State} {a : Address} {f : Registry → Action α}
    (hf : ∀ r : Registry, s.store.cell? a = some (.registry r) → ObeysFrom R s (f r)) :
    ObeysFrom R s (read a >>= f) := by
  unfold read
  rw [bind_assoc]
  refine obeysFrom_cell_bind fun c hc => ?_
  cases c with
  | registry r => exact hf r hc
  | _ => exact obeysFrom_idle rfl

/-- A registry that has just been read can be changed. -/
theorem obeys_read_bind {α : Type} {a : Address} {f : Registry → Action α}
    (hf : ∀ (r : Registry) (s : State), s.store.cell? a = some (.registry r) →
      ObeysFrom R s (f r)) : Obeys R (read a >>= f) :=
  fun s => obeysFrom_read_bind fun r => hf r s

omit [State.Base R] in
/-- A function is registered under a name that no registry of the chain reserves. -/
theorem obeysFrom_insert [State.Extender R] {s : State} {a : Address} {r : Registry} {name : String}
    {f : Value} (hr : s.store.cell? a = some (.registry r)) (hname : isExtensionName name = true)
    (hf : s.store.isCallable f = true) (hfree : name ∉ reservedNames s.store a) :
    ObeysFrom R s (write a (.registry (r.insert name f))) := by
  unfold ObeysFrom
  rw [execute_write]
  exact State.Extender.extend hr hname hf hfree

@[grind ←]
theorem obeys_register [State.Extender R] (a : Address) (name f : Value) :
    Obeys R (register a name f) := by
  have hinvalid : ∀ shown : Except Error String,
      Obeys R (Action.ofExcept shown >>= fun t => (Action.refuse (.invalidName t) : Action Unit)) :=
    fun shown => obeys_bind (obeys_ofExcept shown) fun t => obeys_refuse _
  intro s
  unfold register
  refine obeysFrom_get_bind ?_
  dsimp only
  split
  · split
    · exact hinvalid _ s
    · rename_i t hname
      split
      · exact obeys_refuse _ s
      · rename_i hf
        refine obeysFrom_alongChain a ?_
        split
        · exact obeys_refuse _ s
        · rename_i hfree
          simp only [Bool.not_eq_true', Bool.not_eq_false] at hname hf
          simp only [List.contains_iff_mem] at hfree
          refine obeysFrom_read_bind fun r hr => ?_
          split
          · exact obeysFrom_bind_of_related (obeys_warn _ s) fun _ t ht _ => by
              cases ht
              exact obeysFrom_insert hr hname hf hfree
          · exact obeysFrom_insert hr hname hf hfree
  · exact hinvalid _ s

section

variable {F : State → State → Prop} [State.Frame F]

/-- A registry that has been made can be changed. -/
theorem obeysFrom_revise {s : State} {a : Address} {r : Registry}
    (hr : s.store.cell? a = some (.registry r)) (q : Registry) :
    ObeysFrom F s (write a (.registry q)) := by
  unfold ObeysFrom
  rw [execute_write]
  exact State.Frame.pass hr (.registry r q)

@[grind ←]
theorem obeys_reserveAll (a : Address) (names : List String) : Obeys F (reserveAll a names) := by
  unfold reserveAll
  refine obeys_alongChain a ?_
  refine obeys_bind obeys_get fun s => ?_
  dsimp only
  split
  · exact obeys_read_bind fun r t hr => obeysFrom_revise hr _
  · exact obeys_refuse _

@[grind ←]
theorem obeys_make (parent : Option Address) (reserved : List String) :
    Obeys F (make parent reserved) :=
  fun s => State.Frame.alloc s _ rfl

end

end Registry

namespace Policy

@[grind ←]
theorem obeys_read (a : Address) : Obeys R (read a) := by
  unfold read
  grind

@[grind ←]
theorem obeys_newGenerator (p : Policy) : Obeys R (newGenerator p) := by
  unfold newGenerator
  grind

@[grind ←]
theorem obeys_make (perPage separator direction seed : Value) :
    Obeys R (make perPage separator direction seed) := by
  unfold make
  grind

end Policy

/-! ## Callbacks and queries -/

section

variable {caller : Caller} (hcaller : ObeysCaller R caller)
include hcaller

@[grind ←]
theorem Callback.obeys_call (f : Value) (offered : Nat) (args : List Value) :
    Obeys R (Callback.call caller f offered args) := by
  unfold Callback.call
  grind

end

namespace Expression

mutual
theorem obeys_test {caller : Caller} (hcaller : ObeysCaller R caller) (item : Value) (index : Int)
    (e : Expression) : Obeys R (e.test caller item index) := by
  cases e with
  | all parts =>
    unfold test
    exact obeys_testAll hcaller item index parts
  | not inner =>
    unfold test
    exact obeys_bind (obeys_test hcaller item index inner) fun b => obeys_pure _
  | always => exact obeys_pure true
  | term path op operand =>
    unfold test
    grind
  | custom path symbol f =>
    unfold test truthOf
    grind
  | predicate f =>
    unfold test truthOf
    grind

theorem obeys_testAll {caller : Caller} (hcaller : ObeysCaller R caller) (item : Value)
    (index : Int) (es : List Expression) : Obeys R (testAll caller item index es) := by
  cases es with
  | nil => exact obeys_pure true
  | cons e es =>
    unfold testAll
    refine obeys_bind (obeys_test hcaller item index e) fun b => ?_
    cases b with
    | true => exact obeys_testAll hcaller item index es
    | false => exact obeys_pure false
end

attribute [grind ←] obeys_test obeys_testAll

end Expression

@[grind ←]
theorem Operator.obeys_prepare (op : Operator) (operand : Value) :
    Obeys R (op.prepare operand) := by
  unfold prepare
  grind

namespace Query

@[grind ←]
theorem obeys_operators? (clause : Value) : Obeys R (operators? clause) := by
  unfold operators?
  grind

@[grind ←]
theorem obeys_factory? (symbol : String) (validators : Value) :
    Obeys R (factory? symbol validators) := by
  unfold factory?
  grind

theorem obeys_compileEach {compile : Value → Value → Action Expression}
    (hcompile : ∀ key v, Obeys R (compile key v)) (es : Entries) :
    Obeys R (compileEach compile es) := by
  induction es with
  | nil => exact obeys_pure []
  | cons e rest ih =>
    obtain ⟨key, v⟩ := e
    unfold compileEach
    grind

section

variable {caller : Caller} (hcaller : ObeysCaller R caller)
include hcaller

theorem obeys_customTerm (validators path : Value) (symbol : String) (operand : Value) :
    Obeys R (customTerm caller validators path symbol operand) := by
  unfold customTerm
  grind

theorem obeys_compileClauseAt (validators path : Value) (fuel : Nat) :
    ∀ clause, Obeys R (compileClauseAt caller validators path fuel clause) := by
  induction fuel with
  | zero => exact fun clause => obeys_fault _
  | succ fuel ih =>
    intro clause
    unfold compileClauseAt
    split
    · exact obeys_pure _
    · refine obeys_bind (obeys_operators? clause) fun found => ?_
      cases found with
      | none => exact obeys_pure _
      | some es =>
        refine obeys_bind (obeys_compileEach (fun key operand => ?_) es) fun parts =>
          obeys_pure _
        grind [obeys_customTerm]

@[grind ←]
theorem obeys_compileClause (validators path clause : Value) :
    Obeys R (compileClause caller validators path clause) := by
  unfold compileClause
  grind [obeys_compileClauseAt]

theorem obeys_compileAt (validators : Value) (fuel : Nat) :
    ∀ spec, Obeys R (compileAt caller validators fuel spec) := by
  induction fuel with
  | zero => exact fun spec => obeys_fault _
  | succ fuel ih =>
    intro spec
    unfold compileAt
    refine obeys_bind obeys_get fun s => ?_
    dsimp only
    split
    · exact obeys_pure _
    · cases s.store.entries? spec with
      | none => exact obeys_refuse _
      | some es =>
        refine obeys_bind (obeys_compileEach (fun key clause => ?_) es) fun parts =>
          obeys_pure _
        grind

@[grind ←]
theorem obeys_compile (validators spec : Value) : Obeys R (compile caller validators spec) := by
  unfold compile
  grind [obeys_compileAt]

end

@[grind ←]
theorem obeys_single (path : Value) (symbol : String) (operand : Value) :
    Obeys R (single path symbol operand) := by
  unfold single
  grind

@[grind ←]
theorem obeys_ofShorthand (args : List Value) : Obeys R (ofShorthand args) := by
  unfold ofShorthand
  grind

end Query

end Recordset
