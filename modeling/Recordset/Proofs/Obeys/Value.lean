import Recordset.Proofs.Obeys.Basic
set_option autoImplicit false

/-!
# Operations on values obey

Visiting, combining and rebuilding values, asking for attributes and following paths: all of it
makes cells and uses up iterators at most.
-/

namespace Recordset.Action

variable {R : State → State → Prop} [State.Base R]

/-! ## Elements and entries -/

@[grind ←]
theorem obeys_iterate (v : Value) : Obeys R (iterate v) := by
  unfold iterate
  refine obeys_bind (obeys_look _) fun xs => ?_
  cases v with
  | ref a =>
    refine obeys_cell_bind fun c s hc => ?_
    cases c with
    | iterator ys =>
      exact obeysFrom_bind (obeysFrom_pass hc (.iterator ys []) rfl) fun _ => obeys_pure xs
    | _ => exact obeys_pure xs s
  | _ => exact obeys_pure xs

@[grind ←]
theorem obeys_afterFound (v : Value) (xs : List Value) : Obeys R (afterFound v xs) := by
  induction xs with
  | nil => exact obeys_pure none
  | cons x rest ih =>
    unfold afterFound
    grind

@[grind ←]
theorem obeys_member (container v : Value) : Obeys R (member container v) := by
  unfold member
  refine obeys_get_bind fun s => ?_
  split
  · rename_i a xs hview
    refine obeysFrom_bind_of_related (obeys_afterFound v xs s) fun rest t _ ht => ?_
    obtain ⟨ys, hys⟩ := (State.Base.evolves ht).iterator hview
    exact obeysFrom_bind (obeysFrom_pass hys (.iterator ys _) rfl) fun _ => obeys_pure _
  · exact obeys_look _ s

/-! ## Operations on two values -/

@[grind ←]
theorem obeys_number (n : Number) : Obeys R (number n) := by
  unfold number
  grind

@[grind ←]
theorem obeys_joined (a b : Value) : Obeys R (joined a b) := by
  unfold joined
  grind

@[grind ←]
theorem obeys_repeats {α : Type} (beyond : Fault) (xs : List α) (count : Int) :
    Obeys R (repeats beyond xs count) := by
  unfold repeats
  grind

@[grind ←]
theorem obeys_repetition (v : Value) (count : Int) : Obeys R (repetition v count) := by
  unfold repetition
  grind

@[grind ←]
theorem obeys_difference (a b : Value) : Obeys R (difference a b) := by
  unfold difference
  grind

@[grind ←]
theorem obeys_formatted (a b : Value) : Obeys R (formatted a b) := by
  unfold formatted
  grind

@[grind ←]
theorem obeys_arithmetic (f : Number → Number → Except ArithmeticFault Number) (a b : Number) :
    Obeys R (arithmetic f a b) := by
  unfold arithmetic
  grind

@[grind ←]
theorem obeys_binary (op : BinaryOp) (a b : Value) : Obeys R (binary op a b) := by
  unfold binary
  grind

/-! ## Attributes -/

@[grind ←]
theorem obeys_patternAttribute (p : Pattern) (name : String) :
    Obeys R (patternAttribute p name) := by
  unfold patternAttribute
  split
  · exact obeys_pure _
  · exact obeys_pure _
  · exact obeys_pure _
  · exact obeys_bind (obeys_make rfl) fun _ => obeys_pure _
  · exact obeys_pure _

@[grind ←]
theorem obeys_methodOf (a : Address) (name : String) : Obeys R (methodOf a name) := by
  exact obeys_bind obeys_serial fun _ => obeys_pure _

@[grind ←]
theorem obeys_internalAttribute (c : Collection) (name : String) :
    Obeys R (internalAttribute c name) := by
  unfold internalAttribute
  split <;> exact obeys_pure _

theorem obeysFrom_alongChain {α : Type} {s : State} {x : Action α} (a : Address)
    (hx : ObeysFrom R s x) : ObeysFrom R s (alongChain a x) := by
  refine obeysFrom_get_bind ?_
  split
  · exact hx
  · exact obeys_fault _ s

@[grind ←]
theorem obeys_alongChain {α : Type} {x : Action α} (a : Address) (hx : Obeys R x) :
    Obeys R (alongChain a x) := fun s => obeysFrom_alongChain a (hx s)

@[grind ←]
theorem obeys_collectionAttribute (a : Address) (c : Collection) (name : String) :
    Obeys R (collectionAttribute a c name) := by
  unfold collectionAttribute
  split
  · exact obeys_bind obeys_get fun _ => obeys_pure _
  · exact obeys_pure _
  · exact obeys_pure _
  · exact obeys_pure _
  · split
    · exact obeys_pure _
    · split
      · exact obeys_pure _
      · split
        · exact obeys_methodOf a name
        · split
          · exact obeys_internalAttribute c name
          · refine obeys_bind obeys_get fun s => ?_
            dsimp only
            split
            · exact obeys_bind obeys_serial fun _ => obeys_pure _
            · exact obeys_alongChain _ (obeys_pure none)

@[grind ←]
theorem obeys_builderAttribute (a : Address) (b : Builder) (name : String) :
    Obeys R (builderAttribute a b name) := by
  unfold builderAttribute
  split
  · exact obeys_pure _
  · exact obeys_pure _
  · exact obeys_pure _
  · split
    · exact obeys_methodOf a name
    · exact obeys_pure _

@[grind ←]
theorem obeys_registryAttribute (a : Address) (r : Registry) (name : String) :
    Obeys R (registryAttribute a r name) := by
  unfold registryAttribute
  split
  · exact obeys_pure _
  · split
    · refine obeys_alongChain a ?_
      exact obeys_bind obeys_get fun _ => obeys_bind (obeys_make rfl) fun _ => obeys_pure _
    · split
      · exact obeys_methodOf a name
      · exact obeys_pure _

@[grind ←]
theorem obeys_extensionAttribute (v : Value) (name : String) :
    Obeys R (extensionAttribute v name) := by
  unfold extensionAttribute
  dsimp only
  split
  · exact obeys_pure _
  · exact obeys_bind (obeys_make rfl) fun _ => obeys_pure _
  · exact obeys_bind (obeys_make rfl) fun _ => obeys_pure _
  · exact obeys_pure _

@[grind ←]
theorem obeys_ownAttribute (v : Value) (name : String) : Obeys R (ownAttribute v name) := by
  unfold ownAttribute
  split
  · exact obeys_pure _
  · exact obeys_patternAttribute _ name
  · exact obeys_extensionAttribute _ name
  · refine obeys_bind obeys_get fun s => ?_
    split
    · exact obeys_pure _
    · exact obeys_pure _
    · split
      · exact obeys_throw _
      · exact obeys_pure _
    · exact obeys_collectionAttribute _ _ name
    · exact obeys_pure _
    · exact obeys_builderAttribute _ _ name
    · exact obeys_registryAttribute _ _ name
    · exact obeys_pure _
    · exact obeys_pure _
  · exact obeys_pure _

@[grind ←]
theorem obeys_attribute? (v : Value) (name : String) : Obeys R (attribute? v name) := by
  refine obeys_bind obeys_get fun s => ?_
  split
  · exact obeys_pure _
  · exact obeys_ownAttribute v name

@[grind ←]
theorem obeys_lacking {α : Type} (v : Value) (name : String) :
    Obeys R (lacking v name : Action α) := by
  refine obeys_bind obeys_get fun s => ?_
  split
  · exact obeys_throw _
  · exact obeys_fault _

@[grind ←]
theorem obeys_attributeOf (v : Value) (name : String) : Obeys R (attributeOf v name) := by
  refine obeys_bind (obeys_attribute? v name) fun found => ?_
  split
  · exact obeys_pure _
  · exact obeys_lacking v name

/-! ## Plain values -/

theorem obeys_plainAll {plain : Value → Action Value} (hplain : ∀ v, Obeys R (plain v))
    (vs : List Value) : Obeys R (plainAll plain vs) := by
  induction vs with
  | nil => exact obeys_pure []
  | cons v vs ih =>
    unfold plainAll
    grind

theorem obeys_plainEntries {plain : Value → Action Value} (hplain : ∀ v, Obeys R (plain v))
    (es : Entries) : Obeys R (plainEntries plain es) := by
  rw [plainEntries_eq]
  exact obeys_bind (obeys_plainAll hplain _) fun ws => obeys_pure _

theorem obeys_plainAt (fuel : Nat) : ∀ v, Obeys R (plainAt fuel v) := by
  induction fuel with
  | zero => exact fun v => obeys_fault _
  | succ fuel ih =>
    intro v
    unfold plainAt
    grind [obeys_plainAll, obeys_plainEntries]

@[grind ←]
theorem obeys_plain (v : Value) : Obeys R (plain v) := by
  unfold plain
  grind [obeys_plainAt]

end Recordset.Action

namespace Recordset.Path

open Recordset.Action

variable {R : State → State → Prop} [State.Base R]

/-! ## Paths -/

@[grind ←]
theorem obeys_step (current segment : Value) : Obeys R (step current segment) := by
  refine obeys_bind obeys_get fun s => ?_
  dsimp only
  split
  · split
    · exact obeys_pure _
    · exact obeys_fault _
  · split
    · refine obeys_bind (obeys_ofExcept _) fun i => ?_
      split
      · exact obeys_pure _
      · exact obeys_pure _
    · refine obeys_bind (obeys_ofExcept _) fun i => ?_
      split
      · split
        · exact obeys_pure _
        · exact obeys_throw _
      · exact obeys_pure _
    · split
      · exact obeys_pure _
      · split
        · exact obeys_bind (obeys_attribute? _ _) fun _ => obeys_pure _
        · exact obeys_pure _

@[grind ←]
theorem obeys_follow (segments : List Value) : ∀ v, Obeys R (follow segments v) := by
  induction segments with
  | nil => exact fun v => obeys_pure v
  | cons segment rest ih =>
    intro v
    refine obeys_bind (obeys_step v segment) fun next => ?_
    split
    · exact obeys_pure _
    · exact ih next

@[grind ←]
theorem obeys_resolve (item path default : Value) : Obeys R (resolve item path default) := by
  refine obeys_bind (obeys_look _) fun segments => ?_
  split
  · exact obeys_pure _
  · refine obeys_bind (obeys_follow _ item) fun v => ?_
    split
    · exact obeys_pure _
    · exact obeys_pure _

@[grind ←]
theorem obeys_value (item path : Value) : Obeys R (value item path) := by
  exact obeys_resolve item path .missing

@[grind ←]
theorem obeys_has (item path : Value) : Obeys R (has item path) := by
  exact obeys_bind (obeys_value item path) fun _ => obeys_pure _

@[grind ←]
theorem obeys_withoutAt (segments : List Value) : ∀ item, Obeys R (withoutAt segments item) := by
  induction segments with
  | nil => exact fun item => obeys_pure item
  | cons head rest ih =>
    intro item
    unfold withoutAt
    refine obeys_bind obeys_get fun s => ?_
    grind

@[grind ←]
theorem obeys_without (item path : Value) : Obeys R (without item path) := by
  exact obeys_bind (obeys_look _) fun segments => obeys_withoutAt segments item

end Recordset.Path
