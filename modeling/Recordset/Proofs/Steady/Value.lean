import Recordset.Proofs.Steady.Basic
set_option autoImplicit false

/-!
# Operations on values are steady

Besides what obeys every open relation, patches of collections and copies are steady.  What a patch
writes is of the kind of what has just been read; what a copy writes was made for it.
-/

namespace Recordset

open Recordset.Action

namespace Action

/-! ## What obeys every open relation -/

@[grind ←]
theorem steady_iterate (v : Value) : Steady (iterate v) := obeys_iterate v

@[grind ←]
theorem steady_assign (target key v : Value) : Steady (assign target key v) :=
  obeys_assign target key v

@[grind ←]
theorem steady_number (n : Number) : Steady (number n) := obeys_number n

@[grind ←]
theorem steady_binary (op : BinaryOp) (a b : Value) : Steady (binary op a b) := obeys_binary op a b

@[grind ←]
theorem steady_alongChain {α : Type} {x : Action α} (a : Address) (hx : Steady x) :
    Steady (alongChain a x) := obeys_alongChain a hx

@[grind ←]
theorem steady_attribute? (v : Value) (name : String) : Steady (attribute? v name) :=
  obeys_attribute? v name

@[grind ←]
theorem steady_lacking {α : Type} (v : Value) (name : String) :
    Steady (lacking v name : Action α) := obeys_lacking v name

@[grind ←]
theorem steady_attributeOf (v : Value) (name : String) : Steady (attributeOf v name) :=
  obeys_attributeOf v name

@[grind ←]
theorem steady_plain (v : Value) : Steady (plain v) := obeys_plain v

end Action

@[grind ←]
theorem Path.steady_value (item path : Value) : Steady (value item path) := obeys_value item path

@[grind ←]
theorem Path.steady_resolve (item path default : Value) : Steady (resolve item path default) :=
  obeys_resolve item path default

namespace Action

/-! ## Patches -/

theorem steadyFrom_setCollectionAttribute {s : State} {a : Address} {c : Collection}
    (hc : s.store.cell? a = some (.collection c)) (name : String) (x : Value) :
    SteadyFrom s (setCollectionAttribute a c name x) := by
  unfold setCollectionAttribute
  refine steadyFrom_get_bind ?_
  dsimp only
  split
  · exact steadyFrom_write hc (.collection c _)
  · exact steadyFrom_write hc (.collection c _)
  · exact steadyFrom_write hc (.collection c _)
  · exact steadyFrom_write hc (.collection c _)
  · split
    · exact steady_fault _ s
    · exact steadyFrom_write hc (.collection c _)

theorem steady_setCellAttribute (a : Address) (name : String) (x : Value) :
    Steady (setCellAttribute a name x) := by
  intro s
  cases hc : s.store.cell? a with
  | none =>
    unfold setCellAttribute
    exact obeysFrom_cell_bind fun c h => by simp [hc] at h
  | some c =>
    cases hplain : c.isCollection with
    | false => exact obeysFrom_setCellAttribute hc hplain name x
    | true =>
      cases c with
      | collection c =>
        unfold SteadyFrom setCellAttribute
        rw [execute_bind_of_ok (execute_cell hc)]
        exact steadyFrom_setCollectionAttribute hc name x
      | _ => cases hplain

@[grind ←]
theorem steady_setAttribute (v : Value) (name : String) (x : Value) :
    Steady (setAttribute v name x) := by
  intro s
  cases v with
  | ref a => exact steady_setCellAttribute a name x s
  | _ => exact obeysFrom_setAttribute (fun _ h => by cases h) name x

@[grind ←]
theorem steady_setAttributes (v : Value) (patch : Entries) : Steady (setAttributes v patch) := by
  induction patch with
  | nil => exact steady_pure _
  | cons e rest ih =>
    obtain ⟨k, x⟩ := e
    unfold setAttributes
    grind

@[grind ←]
theorem steady_merge (v : Value) (patch : Entries) : Steady (merge v patch) := by
  unfold merge
  refine steady_get_bind fun s => ?_
  dsimp only
  split
  · rename_i a es hview
    exact steadyFrom_bind (steadyFrom_write hview (.dict es _)) fun _ => steady_pure _
  · exact steady_make _ s
  · split
    · exact steadyFrom_bind (steady_setAttributes _ patch s) fun _ => steady_pure _
    · exact steady_refuse _ s

/-! ## Copies -/

variable {α β : Type}

/-- An action that makes copies leads only to what a state can evolve into, whatever has been copied
since. -/
def SteadyCopying (s : State) (x : Copying α) : Prop :=
  ∀ copies : Copies, Keeps s.Evolves (x.run copies)

theorem keeps_of_steady {x : Action α} (hx : Steady x) (s : State) : Keeps s.Evolves x :=
  fun t ht => ht.trans (hx t)

section

variable {s : State}

theorem steadyCopying_pure (a : α) : SteadyCopying s (pure a : Copying α) :=
  fun copies => keeps_pure (a, copies)

theorem steadyCopying_throw (e : Error) : SteadyCopying s (throw e : Copying α) :=
  fun _ => keeps_of_steady (steady_throw e) s

theorem steadyCopying_bind {x : Copying α} {f : α → Copying β} (hx : SteadyCopying s x)
    (hf : ∀ a, SteadyCopying s (f a)) : SteadyCopying s (x >>= f) := by
  intro copies
  rw [StateT.run_bind]
  exact keeps_bind (hx copies) fun r => hf r.1 r.2

theorem steadyCopying_lift {x : Action α} (hx : Keeps s.Evolves x) :
    SteadyCopying s (monadLift x : Copying α) := by
  intro copies
  exact keeps_bind hx fun a => keeps_pure (a, copies)

theorem steadyCopying_lift_of_steady {x : Action α} (hx : Steady x) :
    SteadyCopying s (monadLift x : Copying α) := steadyCopying_lift (keeps_of_steady hx s)

theorem steadyCopying_get : SteadyCopying s (get : Copying Copies) :=
  fun copies => keeps_pure (copies, copies)

theorem steadyCopying_modify (f : Copies → Copies) :
    SteadyCopying s (modify f : Copying PUnit) :=
  fun copies => keeps_pure (PUnit.unit, f copies)

theorem steadyCopying_forIn {γ : Type} {f : γ → β → Copying (ForInStep β)}
    (hf : ∀ c b, SteadyCopying s (f c b)) (xs : List γ) :
    ∀ b, SteadyCopying s (forIn xs b f) := by
  induction xs with
  | nil => exact fun b => steadyCopying_pure b
  | cons x xs ih =>
    intro b
    rw [List.forIn_cons]
    refine steadyCopying_bind (hf x b) fun r => ?_
    cases r with
    | done b => exact steadyCopying_pure b
    | yield b => exact ih b

theorem steadyCopying_getState : SteadyCopying s (getThe State : Copying State) :=
  fun copies => keeps_bind (keeps_of_steady steady_get s) fun t => keeps_pure (t, copies)

attribute [local grind ←] steadyCopying_pure steadyCopying_throw steadyCopying_bind
  steadyCopying_lift_of_steady steadyCopying_get steadyCopying_modify steadyCopying_forIn
  steadyCopying_getState

/-- The value is not shared, or its cell was not there at first. -/
def IsNew (s : State) (v : Value) : Prop := ∀ a, v.same (.ref a) = true → s.store.size ≤ a.index

/-- An attribute can be set on a value that was not there at first. -/
theorem steadyCopying_setMark {v : Value} (hv : IsNew s v) (name : String) (x : Value) :
    SteadyCopying s
      (modifyThe State fun s => { s with store := s.store.setMark v name x }) := by
  refine steadyCopying_lift (x := setMark v name x) fun t ht => ?_
  constructor
  · exact ht.cells
  · intro a kind fields hc key
    have hlt : a.index < s.store.size := (Array.getElem?_eq_some_iff.mp hc).1
    have hother : v.same (.ref a) = false :=
      Bool.eq_false_iff.mpr fun hsame => absurd (hv a hsame) (Nat.not_le.mpr hlt)
    rw [← ht.marks a kind fields hc key]
    show (t.store.setMark v name x).mark? (.ref a) key = _
    simp [Store.mark?, Store.setMark, hother]

theorem steadyCopying_copyMarks {copy : Value → Copying Value}
    (hcopy : ∀ v, SteadyCopying s (copy v)) (v : Value) {w : Value} (hw : IsNew s w) :
    SteadyCopying s (copyMarks copy v w) := by
  unfold copyMarks
  refine steadyCopying_bind steadyCopying_getState fun t => ?_
  refine steadyCopying_bind (steadyCopying_forIn (fun mark u => ?_) _ _) fun u =>
    steadyCopying_pure u
  refine steadyCopying_bind (hcopy mark.2) fun x => ?_
  exact steadyCopying_bind (steadyCopying_setMark hw mark.1 x) fun _ => steadyCopying_pure _

/-- A cell that was not there at first can be written with anything. -/
theorem keeps_write_new {b : Address} (hb : s.store.size ≤ b.index) (c : Cell) :
    Keeps s.Evolves (write b c) := by
  intro t ht
  constructor
  · intro a d hd
    obtain ⟨e, he, hde⟩ := ht.cells a d hd
    have hne : a ≠ b := by
      rintro rfl
      exact absurd (Array.getElem?_eq_some_iff.mp hd).1 (Nat.not_lt.mpr hb)
    exact ⟨e, (Store.cell?_write_of_ne c hne).trans he, hde⟩
  · exact ht.marks

/-- The cell of a copy is new, so that it can be filled with anything. -/
theorem steadyCopying_copyInto {copy : Value → Copying Value}
    (hcopy : ∀ v, SteadyCopying s (copy v)) (a : Address) (empty : Cell) {fill : Copying Cell}
    (hfill : SteadyCopying s fill) : SteadyCopying s (copyInto copy a empty fill) := by
  intro copies t ht
  have hsize : s.store.size ≤ t.store.size := ht.size_le
  have hnew : IsNew s (.ref ⟨t.store.size⟩) := by
    intro b hb
    obtain rfl : ⟨t.store.size⟩ = b := by simpa [Value.same] using hb
    exact hsize
  have hrest : Keeps s.Evolves
      ((do
        modify ((a, .ref ⟨t.store.size⟩) :: ·)
        let c ← fill
        Action.write ⟨t.store.size⟩ c
        copyMarks copy (.ref a) (.ref ⟨t.store.size⟩)
        return .ref ⟨t.store.size⟩ : Copying Value).run copies) := by
    refine steadyCopying_bind (steadyCopying_modify _) (fun _ => ?_) copies
    refine steadyCopying_bind hfill fun c => ?_
    refine steadyCopying_bind (steadyCopying_lift (keeps_write_new hsize c)) fun _ => ?_
    exact steadyCopying_bind (steadyCopying_copyMarks hcopy _ hnew) fun _ => steadyCopying_pure _
  exact hrest _ (ht.trans (t.evolves_alloc empty))

theorem steadyCopying_copyAll {copy : Value → Copying Value} (hcopy : ∀ v, SteadyCopying s (copy v))
    (vs : List Value) : SteadyCopying s (copyAll copy vs) := by
  induction vs with
  | nil => exact steadyCopying_pure []
  | cons v vs ih =>
    unfold copyAll
    grind

theorem steadyCopying_copyEntries {copy : Value → Copying Value}
    (hcopy : ∀ v, SteadyCopying s (copy v)) (es : Entries) :
    SteadyCopying s (copyEntries copy es) := by
  induction es with
  | nil => exact steadyCopying_pure []
  | cons e es ih =>
    obtain ⟨k, v⟩ := e
    unfold copyEntries
    grind

theorem steadyCopying_copyFields {copy : Value → Copying Value}
    (hcopy : ∀ v, SteadyCopying s (copy v)) (fs : List (String × Value)) :
    SteadyCopying s (copyFields copy fs) := by
  induction fs with
  | nil => exact steadyCopying_pure []
  | cons f fs ih =>
    obtain ⟨name, v⟩ := f
    unfold copyFields
    grind

theorem steadyCopying_copyAddress {copy : Value → Copying Value}
    (hcopy : ∀ v, SteadyCopying s (copy v)) (a : Address) :
    SteadyCopying s (copyAddress copy a) := by
  unfold copyAddress
  grind

attribute [local grind ←] steadyCopying_copyInto steadyCopying_copyAll
  steadyCopying_copyEntries steadyCopying_copyFields steadyCopying_copyAddress

section

variable {copy : Value → Copying Value} (hcopy : ∀ v, SteadyCopying s (copy v))
include hcopy

theorem steadyCopying_copyCollection (c : Collection) :
    SteadyCopying s (copyCollection copy c) := by
  unfold copyCollection
  refine steadyCopying_bind (steadyCopying_copyAddress hcopy c.list) fun list => ?_
  refine steadyCopying_bind (steadyCopying_copyAddress hcopy c.validators) fun validators => ?_
  refine steadyCopying_bind (steadyCopying_copyAddress hcopy c.policy) fun policy => ?_
  grind

theorem steadyCopying_copyRegistry (r : Registry) : SteadyCopying s (copyRegistry copy r) := by
  unfold copyRegistry
  grind

theorem steadyCopying_copyPolicy (p : Policy) : SteadyCopying s (copyPolicy copy p) := by
  unfold copyPolicy
  grind

theorem steadyCopying_copyBuilder (b : Builder) : SteadyCopying s (copyBuilder copy b) := by
  unfold copyBuilder
  refine steadyCopying_bind (hcopy b.executor) fun executor => ?_
  refine steadyCopying_bind (hcopy b.validators) fun validators => ?_
  refine steadyCopying_bind (hcopy b.shown) fun shown => ?_
  exact steadyCopying_bind steadyCopying_getState fun s => steadyCopying_pure _

theorem steadyCopying_copyExecutor (a : Address) (e : Executor) :
    SteadyCopying s (copyExecutor copy a e) := by
  unfold copyExecutor
  cases e <;> exact steadyCopying_copyInto hcopy a _ (by grind)

/-- The cells whose copies are filled with the copies of what they hold. -/
theorem steadyCopying_copyCell (a : Address) (c : Cell) : SteadyCopying s (copyCell copy a c) := by
  unfold copyCell
  cases c with
  | tuple xs =>
    refine steadyCopying_bind (steadyCopying_copyAll hcopy xs) fun ys => ?_
    split
    · exact steadyCopying_pure _
    · exact steadyCopying_copyInto hcopy a _ (steadyCopying_pure _)
  | set xs =>
    refine steadyCopying_copyInto hcopy a _ ?_
    refine steadyCopying_bind (steadyCopying_copyAll hcopy xs) fun ys => ?_
    exact steadyCopying_bind steadyCopying_getState fun s => steadyCopying_pure _
  | frozen es => exact steadyCopying_throw _
  | work o => exact steadyCopying_throw _
  | collection c =>
    exact steadyCopying_copyInto hcopy a _ (steadyCopying_copyCollection hcopy c)
  | registry r => exact steadyCopying_copyInto hcopy a _ (steadyCopying_copyRegistry hcopy r)
  | policy p => exact steadyCopying_copyInto hcopy a _ (steadyCopying_copyPolicy hcopy p)
  | builder b =>
    dsimp only
    split
    · exact steadyCopying_throw _
    · exact steadyCopying_copyInto hcopy a _ (steadyCopying_copyBuilder hcopy b)
  | executor e => exact steadyCopying_copyExecutor hcopy a e
  | function f => exact steadyCopying_pure _
  | _ => exact steadyCopying_copyInto hcopy a _ (by grind)

end

theorem steadyCopying_copyAt (fuel : Nat) : ∀ v, SteadyCopying s (copyAt fuel v) := by
  induction fuel with
  | zero => exact fun v => steadyCopying_throw _
  | succ fuel ih =>
    intro v
    unfold copyAt
    cases v with
    | extension serial f receiver =>
      refine steadyCopying_bind (ih f) fun g => steadyCopying_bind (ih receiver) fun r => ?_
      refine steadyCopying_bind (steadyCopying_lift_of_steady steady_serial) fun n => ?_
      refine steadyCopying_bind (steadyCopying_copyMarks ih _ fun a h => ?_) fun _ =>
        steadyCopying_pure _
      exact absurd h (by simp [Value.same])
    | method serial a name => grind
    | ref a =>
      refine steadyCopying_bind steadyCopying_get fun copies => ?_
      cases copies.find? (·.1 == a) with
      | some copied => exact steadyCopying_pure copied.2
      | none =>
        exact steadyCopying_bind (steadyCopying_lift_of_steady (steady_cell a)) fun c =>
          steadyCopying_copyCell ih a c
    | _ => exact steadyCopying_pure _

end

@[grind ←]
theorem steady_deepCopy (vs : List Value) : Steady (deepCopy vs) := by
  have hall : ∀ fuel, Steady ((copyAll (copyAt fuel) vs).run []) := fun fuel s =>
    steadyCopying_copyAll (steadyCopying_copyAt fuel) vs [] s (.refl s)
  unfold deepCopy
  grind

end Action

end Recordset
