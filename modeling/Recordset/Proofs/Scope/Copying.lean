import Recordset.Proofs.Scope.Value
import Recordset.Value.Copy
import Recordset.Value.Patch
set_option autoImplicit false

/-!
# Patches and copies within a scope

A patch changes what it is given and nothing else.  A copy is made of what a value holds; its cells
are new, and what has been copied so far is remembered by addresses of the scope.
-/

namespace Recordset

open Recordset.Scope

/-! ## Patches -/

theorem Scope.has_setField {sc : Scope} {fields : List (String × Value)} {x : Value}
    (hfields : sc.Has fields) (name : String) (hx : sc.Has x) :
    sc.Has (setField fields name x) := by
  unfold setField
  split
  · refine has_map fun f hf => ?_
    have hf : sc.Has f := hfields.mem hf
    split
    · exact ⟨has_inert sc _, hx⟩
    · exact hf
  · exact has_append.mpr ⟨hfields, has_cons.mpr ⟨⟨has_inert sc _, hx⟩, has_nil sc⟩⟩

namespace Action

variable {sc : Scope} {v w x : Value} {a : Address} {xs : List Value} {es patch : Entries}

@[grind ←]
theorem within_setMarkOf (name : String) (hv : sc.Has v) (hx : sc.Has x) :
    Within sc (setMark v name x) :=
  within_setMark hv hx name

theorem within_setParent {r : Registry} (ha : sc.Has a) (hr : sc.Has r) (hx : sc.Has x) :
    Within sc (setParent a r x) := by
  unfold setParent
  refine within_get_eq fun s t h => ⟨by rw [h.view hx], ?_⟩
  split
  · exact within_write ha (has_cell_registry.mpr ⟨has_none sc, hr.2⟩)
  · exact within_write ha (has_cell_registry.mpr ⟨has_some.mpr hx, hr.2⟩)
  · exact within_setMarkOf "parent" ha hx

section

variable (name : String)

@[grind ←]
theorem within_setMarkUnless (fixed : List String) (hv : sc.Has v) (hx : sc.Has x) :
    Within sc (setMarkUnless fixed v name x) := by
  unfold setMarkUnless
  grind

theorem within_setCollectionAttribute {c : Collection} (ha : sc.Has a) (hc : sc.Has c)
    (hx : sc.Has x) : Within sc (setCollectionAttribute a c name x) := by
  obtain ⟨hlist, hvalidators, hpolicy, hregistry, hgenerator, hfields⟩ := has_collection_iff.mp hc
  unfold setCollectionAttribute
  refine within_get_eq fun s t h => ⟨?_, ?_⟩
  · dsimp only
    rw [h.view hx]
  · dsimp only
    split
    · exact within_write ha (has_cell_collection.mpr
        ⟨hx, hvalidators, hpolicy, hregistry, hgenerator, hfields⟩)
    · exact within_write ha (has_cell_collection.mpr
        ⟨hlist, hx, hpolicy, hregistry, hgenerator, hfields⟩)
    · exact within_write ha (has_cell_collection.mpr
        ⟨hlist, hvalidators, hx, hregistry, hgenerator, hfields⟩)
    · exact within_write ha (has_cell_collection.mpr
        ⟨hlist, hvalidators, hpolicy, hx, hgenerator, hfields⟩)
    · split
      · exact within_fault _
      · exact within_write ha (has_cell_collection.mpr
          ⟨hlist, hvalidators, hpolicy, hregistry, hgenerator, has_setField hfields _ hx⟩)

theorem within_setExecutorAttribute {e : Executor} (ha : sc.Has a) (he : sc.Has e)
    (hx : sc.Has x) : Within sc (setExecutorAttribute a e name x) := by
  unfold setExecutorAttribute
  grind

@[grind ←]
theorem within_setCellAttribute (ha : sc.Has a) (hx : sc.Has x) :
    Within sc (setCellAttribute a name x) := by
  have href : sc.Has (Value.ref a) := ha
  unfold setCellAttribute
  refine within_bind (within_cell ha) fun c hc => ?_
  cases c with
  | object fields =>
    exact within_write ha (has_cell_object.mpr (has_setField (has_cell_object.mp hc) name hx))
  | custom kind fields =>
    have hfields := has_setField (has_cell_custom.mp hc) name hx
    grind
  | collection c => exact within_setCollectionAttribute name ha (has_cell_collection.mp hc) hx
  | registry r =>
    have hparent := within_setParent ha (has_cell_registry.mp hc) hx
    grind
  | executor e => exact within_setExecutorAttribute name ha (has_cell_executor.mp hc) hx
  | _ => grind

@[grind ←]
theorem within_setAttribute (hv : sc.Has v) (hx : sc.Has x) :
    Within sc (setAttribute v name x) := by
  unfold setAttribute
  split
  · exact within_setCellAttribute name hv hx
  · exact within_fault _
  · exact within_setMarkUnless name _ hv hx
  · split
    · exact within_setMarkOf name hv hx
    · exact within_fault _
  · exact within_setMarkOf name hv hx

end

@[grind ←]
theorem within_setAttributes (hv : sc.Has v) (hpatch : sc.Has patch) :
    Within sc (setAttributes v patch) := by
  induction patch with
  | nil => exact within_pure (has_inert sc _)
  | cons e rest ih =>
    obtain ⟨he, hrest⟩ := has_cons.mp hpatch
    obtain ⟨key, x⟩ := e
    unfold setAttributes
    cases key with
    | str name => exact within_bind (within_setAttribute name hv (has_snd he)) fun _ _ => ih hrest
    | _ => exact within_fault _

end Action

theorem Scope.SameStore.hasAttributes {sc : Scope} {s t : Store} {v : Value}
    (h : sc.SameStore s t) (hv : sc.Has v) :
    Action.hasAttributes s v = Action.hasAttributes t v := by
  unfold Action.hasAttributes
  rw [h.view hv]

namespace Action

variable {sc : Scope} {v w x : Value} {a : Address} {xs : List Value} {es patch : Entries}

@[grind ←]
theorem within_merge (hv : sc.Has v) (hpatch : sc.Has patch) : Within sc (merge v patch) := by
  unfold merge
  refine within_get_bind fun s t h => ?_
  dsimp only
  rw [h.view hv, h.hasAttributes hv, h.kind hv]
  split
  · rename_i a es hc
    have hes : sc.Has es := has_cell_dict.mp (h.closed.has_of_view hv hc)
    rw [h.insertAll hpatch hes]
    refine (within_bind (within_write hv ?_) fun _ _ => within_pure hv).from h
    exact has_cell_dict.mpr (has_insertAll hpatch hes)
  · rename_i es hc
    have hes : sc.Has es := has_cell_frozen.mp (h.closed.has_of_view hv hc)
    rw [h.insertAll hpatch hes]
    exact (within_make (has_cell_dict.mpr (has_insertAll hpatch hes))).from h
  · split
    · exact (within_bind (within_setAttributes hv hpatch) fun _ _ => within_pure hv).from h
    · exact (within_refuse _).from h

/-! ## Copies -/

variable {α β : Type} [Scoped α] [Scoped β]

/-- An action that makes copies stays within a scope when what has been copied so far is in it. -/
def WithinCopying (sc : Scope) (x : Copying α) : Prop :=
  ∀ copies : Copies, sc.Has copies → Within sc (x.run copies)

instance : Scoped (ForInStep α) := ⟨fun sc r => match r with
  | .done a => sc.Has a
  | .yield a => sc.Has a⟩

instance [Inert α] : Inert (ForInStep α) where
  held sc r := match r with
    | .done a => Inert.held sc a
    | .yield a => Inert.held sc a

@[grind ←]
theorem withinCopying_pure {b : α} (hb : sc.Has b) : WithinCopying sc (pure b : Copying α) :=
  fun _ hcopies => within_pure ⟨hb, hcopies⟩

@[grind ←]
theorem withinCopying_throw (e : Error) : WithinCopying sc (throw e : Copying α) :=
  fun _ _ => within_throw e

@[grind ←]
theorem withinCopying_bind {x : Copying α} {f : α → Copying β} (hx : WithinCopying sc x)
    (hf : ∀ b, sc.Has b → WithinCopying sc (f b)) : WithinCopying sc (x >>= f) := by
  intro copies hcopies
  rw [StateT.run_bind]
  exact within_bind (hx copies hcopies) fun r hr => hf r.1 hr.1 r.2 hr.2

@[grind ←]
theorem withinCopying_lift {x : Action α} (hx : Within sc x) :
    WithinCopying sc (monadLift x : Copying α) :=
  fun _ hcopies => within_bind hx fun _ hb => within_pure ⟨hb, hcopies⟩

@[grind ←]
theorem withinCopying_get : WithinCopying sc (get : Copying Copies) :=
  fun _ hcopies => within_pure ⟨hcopies, hcopies⟩

/-- A copy is remembered. -/
@[grind ←]
theorem withinCopying_note (ha : sc.Has a) (hv : sc.Has v) :
    WithinCopying sc (modify ((a, v) :: ·) : Copying PUnit) :=
  fun _ hcopies => within_pure ⟨has_inert sc _, has_cons.mpr ⟨⟨ha, hv⟩, hcopies⟩⟩

/-- What follows a new serial number can use it for an extension or a method. -/
theorem withinCopying_serial_bind {f : Nat → Copying β}
    (hf : ∀ n, n ∈ sc.extensions → n ∈ sc.methods → WithinCopying sc (f n)) :
    WithinCopying sc (monadLift serial >>= f : Copying β) := by
  intro copies hcopies
  rw [StateT.run_bind, StateT.run_monadLift, bind_assoc]
  refine within_serial_bind fun n hextension hmethod => ?_
  rw [pure_bind]
  exact hf n hextension hmethod copies hcopies

/-- What follows a look at the state does not tell apart two states that agree. -/
theorem withinCopying_getState_bind {f : State → Copying β}
    (hf : ∀ s t, sc.Agree s t → f s = f t ∧ WithinCopying sc (f t)) :
    WithinCopying sc (getThe State >>= f : Copying β) :=
  fun copies hcopies => within_get_eq (f := fun s => (f s).run copies) fun s t h =>
    ⟨by rw [(hf s t h).1], (hf s t h).2 copies hcopies⟩

theorem withinCopying_forIn {γ : Type} [Scoped γ] {f : γ → β → Copying (ForInStep β)}
    (hf : ∀ c b, sc.Has c → sc.Has b → WithinCopying sc (f c b)) {cs : List γ} (hcs : sc.Has cs) :
    ∀ {b : β}, sc.Has b → WithinCopying sc (forIn cs b f) := by
  induction cs with
  | nil => exact fun hb => withinCopying_pure hb
  | cons c cs ih =>
    intro b hb
    obtain ⟨hc, hcs⟩ := has_cons.mp hcs
    rw [List.forIn_cons]
    refine withinCopying_bind (hf c b hc hb) fun r hr => ?_
    cases r with
    | done b => exact withinCopying_pure hr
    | yield b => exact ih hcs hr

section

variable {copy : Value → Copying Value} (hcopy : ∀ v, sc.Has v → WithinCopying sc (copy v))
include hcopy

theorem withinCopying_copyMarks (hv : sc.Has v) (hw : sc.Has w) :
    WithinCopying sc (copyMarks copy v w) := by
  unfold copyMarks
  refine withinCopying_getState_bind fun s t h => ⟨by rw [h.marks hv], ?_⟩
  refine withinCopying_bind (withinCopying_forIn (fun mark u hmark hu => ?_) (h.closed.marks hv)
    (has_inert sc _)) fun u _ => withinCopying_pure (has_inert sc _)
  refine withinCopying_bind (hcopy mark.2 hmark.2) fun x hx => ?_
  refine withinCopying_bind ?_ fun _ _ => withinCopying_pure (has_inert sc _)
  exact withinCopying_lift (within_setMarkOf mark.1 hw hx)

theorem withinCopying_copyInto (ha : sc.Has a) {empty : Cell} (hempty : sc.Has empty)
    {fill : Copying Cell} (hfill : WithinCopying sc fill) :
    WithinCopying sc (copyInto copy a empty fill) := by
  unfold copyInto
  refine withinCopying_bind (withinCopying_lift (within_alloc hempty)) fun b hb => ?_
  refine withinCopying_bind (withinCopying_note ha hb) fun _ _ => ?_
  refine withinCopying_bind hfill fun c hc => ?_
  refine withinCopying_bind (withinCopying_lift (within_write hb hc)) fun _ _ => ?_
  exact withinCopying_bind (withinCopying_copyMarks hcopy ha hb) fun _ _ => withinCopying_pure hb

theorem withinCopying_copyAll (hxs : sc.Has xs) : WithinCopying sc (copyAll copy xs) := by
  induction xs with
  | nil => exact withinCopying_pure (has_nil sc)
  | cons x xs ih =>
    obtain ⟨hx, hxs⟩ := has_cons.mp hxs
    refine withinCopying_bind (hcopy x hx) fun y hy => withinCopying_bind (ih hxs) fun ys hys => ?_
    exact withinCopying_pure (has_cons.mpr ⟨hy, hys⟩)

theorem withinCopying_copyEntries (hes : sc.Has es) : WithinCopying sc (copyEntries copy es) := by
  induction es with
  | nil => exact withinCopying_pure (has_nil sc)
  | cons e es ih =>
    obtain ⟨⟨hk, hv⟩, hes⟩ := has_cons.mp hes
    refine withinCopying_bind (hcopy _ hk) fun k hk => ?_
    refine withinCopying_bind (hcopy _ hv) fun v hv => ?_
    refine withinCopying_bind (ih hes) fun rest hrest => withinCopying_pure ?_
    exact has_cons.mpr ⟨⟨hk, hv⟩, hrest⟩

theorem withinCopying_copyFields {fields : List (String × Value)} (hfields : sc.Has fields) :
    WithinCopying sc (copyFields copy fields) := by
  induction fields with
  | nil => exact withinCopying_pure (has_nil sc)
  | cons f fields ih =>
    obtain ⟨⟨hname, hv⟩, hfields⟩ := has_cons.mp hfields
    refine withinCopying_bind (hcopy _ hv) fun v hv => ?_
    refine withinCopying_bind (ih hfields) fun rest hrest => withinCopying_pure ?_
    exact has_cons.mpr ⟨⟨hname, hv⟩, hrest⟩

theorem withinCopying_copyAddress (ha : sc.Has a) : WithinCopying sc (copyAddress copy a) := by
  unfold copyAddress
  refine withinCopying_bind (hcopy _ ha) fun v hv => ?_
  split
  · exact withinCopying_pure hv
  · exact withinCopying_pure ha

theorem withinCopying_copyCollection {c : Collection} (hc : sc.Has c) :
    WithinCopying sc (copyCollection copy c) := by
  have haddress : ∀ {b : Address}, sc.Has b → WithinCopying sc (copyAddress copy b) :=
    withinCopying_copyAddress hcopy
  obtain ⟨hlist, hvalidators, hpolicy, hregistry, hgenerator, hfields⟩ := has_collection_iff.mp hc
  unfold copyCollection
  refine withinCopying_bind (haddress hlist) fun list hlist => ?_
  refine withinCopying_bind (haddress hvalidators) fun validators hvalidators => ?_
  refine withinCopying_bind (haddress hpolicy) fun policy hpolicy => ?_
  refine withinCopying_bind (haddress hregistry) fun registry hregistry => ?_
  refine withinCopying_bind (haddress hgenerator) fun generator hgenerator => ?_
  refine withinCopying_bind (withinCopying_copyFields hcopy hfields) fun fields hfields => ?_
  exact withinCopying_pure (has_cell_collection.mpr
    ⟨hlist, hvalidators, hpolicy, hregistry, hgenerator, hfields⟩)

theorem withinCopying_copyRegistry {r : Registry} (hr : sc.Has r) :
    WithinCopying sc (copyRegistry copy r) := by
  obtain ⟨hparent, htable⟩ := has_registry_iff.mp hr
  have htables : ∀ parent : Option Address, sc.Has parent → WithinCopying sc (do
      let table ← copyFields copy r.table
      return Cell.registry { r with parent, table }) := fun parent hparent =>
    withinCopying_bind (withinCopying_copyFields hcopy htable) fun table htable =>
      withinCopying_pure (has_cell_registry.mpr ⟨hparent, htable⟩)
  unfold copyRegistry
  split
  · rename_i p hp
    refine withinCopying_bind (withinCopying_copyAddress hcopy (hparent p hp)) fun q hq => ?_
    exact withinCopying_bind (withinCopying_pure (has_some.mpr hq)) htables
  · exact withinCopying_bind (withinCopying_pure (has_none sc)) htables

theorem withinCopying_copyPolicy {p : Policy} (hp : sc.Has p) :
    WithinCopying sc (copyPolicy copy p) := by
  obtain ⟨hperPage, hseparator, hseed⟩ := hp
  unfold copyPolicy
  refine withinCopying_bind (hcopy _ hperPage) fun perPage hperPage => ?_
  refine withinCopying_bind (hcopy _ hseparator) fun separator hseparator => ?_
  refine withinCopying_bind (hcopy _ hseed) fun seed hseed => ?_
  exact withinCopying_pure (has_cell_policy.mpr ⟨hperPage, hseparator, hseed⟩)

omit hcopy in
theorem has_operationsShownBy {s : Store} (h : sc.Closed s) (hv : sc.Has v) :
    sc.Has (operationsShownBy s v) := by
  have hshown := (h.sequence? hv).getD (has_nil sc)
  refine has_map fun o ho => ?_
  have ho : sc.Has o := hshown.mem ho
  exact ⟨(h.sequence? ho).getD (has_nil sc), ho⟩

omit hcopy in
theorem operationsShownBy_eq {s t : Store} (h : sc.SameStore s t) (hv : sc.Has v) :
    operationsShownBy s v = operationsShownBy t v := by
  have hshown := (h.closed.sequence? hv).getD (has_nil sc)
  unfold operationsShownBy
  rw [h.sequence? hv]
  exact List.map_congr_left fun o ho => by rw [h.sequence? (hshown.mem ho)]

theorem withinCopying_copyBuilder {b : Builder} (hb : sc.Has b) :
    WithinCopying sc (copyBuilder copy b) := by
  obtain ⟨hexecutor, hvalidators, hshown, -, hexecution⟩ := has_builder_iff.mp hb
  unfold copyBuilder
  refine withinCopying_bind (hcopy _ hexecutor) fun executor hexecutor => ?_
  refine withinCopying_bind (hcopy _ hvalidators) fun validators hvalidators => ?_
  refine withinCopying_bind (hcopy _ hshown) fun shown hshown => ?_
  refine withinCopying_getState_bind fun s t h =>
    ⟨by rw [operationsShownBy_eq h.toSameStore hshown], ?_⟩
  exact withinCopying_pure (has_cell_builder.mpr ⟨hexecutor, hvalidators, hshown,
    has_operationsShownBy h.closed hshown, hexecution⟩)

theorem withinCopying_copyExecutor (ha : sc.Has a) {e : Executor} (he : sc.Has e) :
    WithinCopying sc (copyExecutor copy a e) := by
  unfold copyExecutor
  cases e with
  | memory items policy =>
    refine withinCopying_copyInto hcopy ha (has_cell_executor.mpr he) ?_
    refine withinCopying_bind (hcopy _ he.1) fun items hitems => ?_
    exact withinCopying_bind (hcopy _ he.2) fun policy hpolicy =>
      withinCopying_pure (has_cell_executor.mpr ⟨hitems, hpolicy⟩)
  | recorder behaviour value contexts =>
    have hempty : sc.Has (Executor.recorder behaviour value []) := ⟨he.1, has_nil sc⟩
    refine withinCopying_copyInto hcopy ha (has_cell_executor.mpr hempty) ?_
    refine withinCopying_bind (hcopy _ he.1) fun value hvalue => ?_
    exact withinCopying_bind (withinCopying_copyAll hcopy he.2) fun contexts hcontexts =>
      withinCopying_pure (has_cell_executor.mpr ⟨hvalue, hcontexts⟩)

/-- The cell of a copy, empty at first, is filled with the copy of what another one holds. -/
theorem withinCopying_copyFilled (ha : sc.Has a) {x : Copying α} (hx : WithinCopying sc x)
    {empty : Cell} (hempty : sc.Has empty) {full : α → Cell}
    (hfull : ∀ b, sc.Has b → sc.Has (full b)) :
    WithinCopying sc (copyInto copy a empty do return full (← x)) :=
  withinCopying_copyInto hcopy ha hempty
    (withinCopying_bind hx fun b hb => withinCopying_pure (hfull b hb))

theorem withinCopying_copyCell (ha : sc.Has a) {c : Cell} (hc : sc.Has c) :
    WithinCopying sc (copyCell copy a c) := by
  have hall : ∀ {xs : List Value}, sc.Has xs → WithinCopying sc (copyAll copy xs) :=
    withinCopying_copyAll hcopy
  have hfields : ∀ {fields : List (String × Value)}, sc.Has fields →
      WithinCopying sc (copyFields copy fields) := withinCopying_copyFields hcopy
  unfold copyCell
  cases c with
  | list xs =>
    exact withinCopying_copyFilled hcopy ha (hall (has_cell_list.mp hc))
      (has_cell_list.mpr (has_nil sc)) fun _ => has_cell_list.mpr
  | tuple xs =>
    refine withinCopying_bind (hall (has_cell_tuple.mp hc)) fun ys hys => ?_
    have hcell := has_cell_tuple.mpr hys
    split
    · exact withinCopying_pure ha
    · exact withinCopying_copyInto hcopy ha hcell (withinCopying_pure hcell)
  | set xs =>
    refine withinCopying_copyInto hcopy ha (has_cell_set.mpr (has_nil sc)) ?_
    refine withinCopying_bind (hall (has_cell_set.mp hc)) fun ys hys => ?_
    refine withinCopying_getState_bind fun s t h => ⟨by rw [h.setOf hys], ?_⟩
    exact withinCopying_pure (has_cell_set.mpr (has_setOf hys))
  | dict es =>
    exact withinCopying_copyFilled hcopy ha
      (withinCopying_copyEntries hcopy (has_cell_dict.mp hc))
      (has_cell_dict.mpr (has_nil sc)) fun _ => has_cell_dict.mpr
  | frozen _ | work _ => exact withinCopying_throw _
  | object fields =>
    exact withinCopying_copyFilled hcopy ha (hfields (has_cell_object.mp hc))
      (has_cell_object.mpr (has_nil sc)) fun _ => has_cell_object.mpr
  | iterator xs =>
    exact withinCopying_copyFilled hcopy ha (hall (has_cell_iterator.mp hc))
      (has_cell_iterator.mpr (has_nil sc)) fun _ => has_cell_iterator.mpr
  | custom kind fields =>
    exact withinCopying_copyFilled hcopy ha (hfields (has_cell_custom.mp hc))
      (has_cell_custom.mpr (has_nil sc)) fun _ => has_cell_custom.mpr
  | record kind fields =>
    exact withinCopying_copyFilled hcopy ha (hfields (has_cell_record.mp hc))
      (has_cell_record.mpr (has_nil sc)) fun _ => has_cell_record.mpr
  | hostile | generator _ => exact withinCopying_copyInto hcopy ha hc (withinCopying_pure hc)
  | collection c =>
    exact withinCopying_copyInto hcopy ha hc
      (withinCopying_copyCollection hcopy (has_cell_collection.mp hc))
  | registry r =>
    exact withinCopying_copyInto hcopy ha hc
      (withinCopying_copyRegistry hcopy (has_cell_registry.mp hc))
  | policy p =>
    exact withinCopying_copyInto hcopy ha hc
      (withinCopying_copyPolicy hcopy (has_cell_policy.mp hc))
  | builder b =>
    dsimp only
    split
    · exact withinCopying_throw _
    · exact withinCopying_copyInto hcopy ha hc
        (withinCopying_copyBuilder hcopy (has_cell_builder.mp hc))
  | executor e => exact withinCopying_copyExecutor hcopy ha (has_cell_executor.mp hc)
  | function f => exact withinCopying_pure ha

end

/-- A value is copied with what it holds; only shared values have been copied before. -/
theorem withinCopying_copyAt (fuel : Nat) : ∀ {v : Value}, sc.Has v →
    WithinCopying sc (copyAt fuel v) := by
  induction fuel with
  | zero => exact fun _ => withinCopying_throw _
  | succ fuel ih =>
    intro v hv
    have hcopy : ∀ v, sc.Has v → WithinCopying sc (copyAt fuel v) := fun v hv => ih hv
    unfold copyAt
    cases v with
    | extension serial f receiver =>
      obtain ⟨-, hf, hreceiver⟩ := has_extension.mp hv
      refine withinCopying_bind (ih hf) fun f hf => withinCopying_bind (ih hreceiver) fun r hr => ?_
      refine withinCopying_serial_bind fun n hn _ => ?_
      have hw : sc.Has (Value.extension n f r) := ⟨hn, hf, hr⟩
      exact withinCopying_bind (withinCopying_copyMarks hcopy hv hw) fun _ _ =>
        withinCopying_pure hw
    | method serial a name =>
      have ha : sc.Has a := (has_method.mp hv).2
      dsimp only
      split
      · exact withinCopying_pure hv
      · refine withinCopying_serial_bind fun n _ hn => ?_
        exact withinCopying_bind (withinCopying_copyAddress hcopy ha) fun b hb =>
          withinCopying_pure (has_method.mpr ⟨hn, hb⟩)
    | ref a =>
      refine withinCopying_bind withinCopying_get fun copies hcopies => ?_
      have hcopied := hcopies.find? (·.1 == a)
      split
      · rename_i w hw
        exact withinCopying_pure (has_snd (hcopied _ hw))
      · exact withinCopying_bind (withinCopying_lift (within_cell hv)) fun c hc =>
          withinCopying_copyCell hcopy hv hc
    | _ => exact withinCopying_pure hv

@[grind ←]
theorem within_deepCopy (hxs : sc.Has xs) : Within sc (deepCopy xs) := by
  unfold deepCopy
  refine within_get_eq fun s t h => ⟨by rw [h.depth], ?_⟩
  have hcopies : Within sc ((copyAll (copyAt t.store.depth) xs).run []) :=
    withinCopying_copyAll (fun v hv => withinCopying_copyAt _ hv) hxs [] (has_nil sc)
  exact within_bind hcopies fun r hr => within_pure hr.1

end Action

end Recordset
