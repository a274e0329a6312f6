import Recordset.Proofs.Scope.Showing
import Recordset.Value.Arithmetic
set_option autoImplicit false

/-!
# Operations on the values of a scope

Visiting, combining, rebuilding and changing values, asking for attributes and following paths: all
of it stays within a scope that the values are in.
-/

namespace Recordset

open Recordset.Scope

/-! ## Lists of values -/

section

variable {sc : Scope} {v : Value} {xs : List Value}

@[grind ←]
theorem has_replaceAt (hxs : sc.Has xs) (key : Value) (hv : sc.Has v) :
    sc.Has (replaceAt xs key v) := by
  unfold replaceAt
  grind

@[grind ←]
theorem has_removeAt (hxs : sc.Has xs) (key : Value) : sc.Has (removeAt xs key) := by
  unfold removeAt
  grind

@[grind ←]
theorem has_repeated {α : Type} [Scoped α] {xs : List α} (hxs : sc.Has xs) (count : Int) :
    sc.Has (repeated xs count) := by
  intro x hx
  obtain ⟨ys, hys, hx⟩ := List.mem_flatten.mp hx
  rw [List.eq_of_mem_replicate hys] at hx
  exact hxs.mem hx

end

/-! ## Registries -/

namespace Scope

variable {sc : Scope} {s t : Store} {a : Address}

theorem has_get? {r : Registry} (hr : sc.Has r) (name : String) : sc.Has (r.get? name) :=
  (hr.2.find? _).option_map fun _ hp => has_snd hp

theorem SameStore.registered? (h : sc.SameStore s t) (name : String) : ∀ (fuel : Nat) {a : Address},
    sc.Has a → Action.registered? s name fuel a = Action.registered? t name fuel a := by
  intro fuel
  induction fuel with
  | zero => exact fun _ => rfl
  | succ fuel ih =>
    intro a ha
    unfold Action.registered?
    rw [h.cells ha]
    split
    · rename_i r hc
      have hr : sc.Has r := has_cell_registry.mp (h.closed.cells ha hc)
      split
      · rfl
      · rename_i p _ hp
        exact ih (hr.1 p hp)
      · rfl
    · rfl

theorem Closed.registered? (h : sc.Closed s) (name : String) : ∀ (fuel : Nat) {a : Address},
    sc.Has a → sc.Has (Action.registered? s name fuel a) := by
  intro fuel
  induction fuel with
  | zero => exact fun _ => has_none sc
  | succ fuel ih =>
    intro a ha
    unfold Action.registered?
    split
    · rename_i r hc
      have hr : sc.Has r := has_cell_registry.mp (h.cells ha hc)
      split
      · rename_i f hf
        exact has_some.mpr (has_get? hr name f hf)
      · rename_i p _ hp
        exact ih (hr.1 p hp)
      · exact has_none sc
    · exact has_none sc

theorem SameStore.isBoundedAt (h : sc.SameStore s t) : ∀ (fuel : Nat) {a : Address}, sc.Has a →
    Action.isBoundedAt s fuel a = Action.isBoundedAt t fuel a := by
  intro fuel
  induction fuel with
  | zero => exact fun _ => rfl
  | succ fuel ih =>
    intro a ha
    unfold Action.isBoundedAt
    rw [h.cells ha]
    split
    · rename_i r hc
      have hr : sc.Has r := has_cell_registry.mp (h.closed.cells ha hc)
      cases hparent : r.parent with
      | none => rfl
      | some p => rw [Option.map_some, Option.map_some, ih (hr.1 p hparent)]
    · rfl

theorem SameStore.isBounded (h : sc.SameStore s t) (ha : sc.Has a) :
    Action.isBounded s a = Action.isBounded t a := by
  unfold Action.isBounded
  rw [h.depth, h.isBoundedAt _ ha]

theorem SameStore.reserved (h : sc.SameStore s t) : ∀ (fuel : Nat) {a : Address}, sc.Has a →
    Action.reserved s fuel a = Action.reserved t fuel a := by
  intro fuel
  induction fuel with
  | zero => exact fun _ => rfl
  | succ fuel ih =>
    intro a ha
    unfold Action.reserved
    rw [h.cells ha]
    split
    · rename_i r hc
      have hr : sc.Has r := has_cell_registry.mp (h.closed.cells ha hc)
      cases hparent : r.parent with
      | none => rfl
      | some p => rw [Option.map_some, Option.map_some, ih (hr.1 p hparent)]
    · rfl

end Scope

namespace Action

variable {sc : Scope} {v w x : Value} {a : Address} {xs ys : List Value} {es patch : Entries}

/-! ## Elements and entries -/

@[grind ←]
theorem within_view (hv : sc.Has v) : Within sc (view v) :=
  within_get_eq fun _ _ h => ⟨by rw [h.view hv], within_pure (h.closed.view hv)⟩

theorem within_elements (hv : sc.Has v) : Within sc (look (Store.elements · v)) :=
  within_look fun _ _ h => ⟨h.elements hv, h.closed.elements hv⟩

@[grind ←]
theorem within_iterate (hv : sc.Has v) : Within sc (iterate v) := by
  unfold iterate
  refine within_bind (within_elements hv) fun xs hxs => ?_
  have hdrained : sc.Has (Cell.iterator []) := has_cell_iterator.mpr (has_nil sc)
  cases v with
  | ref a => exact within_bind (within_cell hv) fun c _ => by grind
  | _ => exact within_pure hxs

theorem within_matchesElement (hv : sc.Has v) (hw : sc.Has w) :
    Within sc (look fun s => s.matchesElement v w) :=
  within_look fun _ _ h => ⟨h.matchesElement hv hw, has_inert sc _⟩

@[grind ←]
theorem within_afterFound (hv : sc.Has v) (hxs : sc.Has xs) : Within sc (afterFound v xs) := by
  induction xs with
  | nil => exact within_pure (has_none sc)
  | cons x rest ih =>
    obtain ⟨hx, hrest⟩ := has_cons.mp hxs
    have ih := ih hrest
    unfold afterFound
    refine within_bind (within_matchesElement hx hv) fun found _ => ?_
    grind

@[grind ←]
theorem within_member (hv : sc.Has v) (hw : sc.Has w) : Within sc (member v w) := by
  unfold member
  refine within_get_eq fun s t h => ⟨by rw [h.view hv], ?_⟩
  split
  · rename_i a xs hc
    have hxs : sc.Has xs := h.closed.has_of_view hv hc
    refine within_bind (within_afterFound hw hxs) fun rest hrest => ?_
    refine within_bind (within_write hv ?_) fun _ _ => within_pure (has_inert sc _)
    exact has_cell_iterator.mpr (hrest.getD (has_nil sc))
  · exact within_look fun _ _ h => ⟨h.holds hv hw, has_inert sc _⟩

@[grind ←]
theorem within_fillList (ha : sc.Has a) (hxs : sc.Has xs) : Within sc (fillList a xs) := by
  unfold fillList
  refine within_bind (within_cell ha) fun c hc => ?_
  grind

/-- An entry is put into the mapping in a cell. -/
theorem within_putEntry {key : Value} (ha : sc.Has a) (hes : sc.Has es) (hkey : sc.Has key)
    (hv : sc.Has v) : Within sc (do
      let s := (← get).store
      if s.isKey key then write a (.dict (Entries.insert s es key v)) else fault .type) := by
  refine within_get_eq fun s t h => ⟨?_, ?_⟩
  · dsimp only
    rw [h.isKey hkey, h.insert hkey hes]
  · have hinsert := has_insert (s := t.store) hes hkey hv
    grind

@[grind ←]
theorem within_assign {key : Value} (hv : sc.Has v) (hkey : sc.Has key) (hw : sc.Has w) :
    Within sc (assign v key w) := by
  unfold assign
  cases v with
  | ref a =>
    refine within_bind (within_cell hv) fun c hc => ?_
    cases c with
    | list xs =>
      refine within_bind (within_ofExcept (has_replaceAt (has_cell_list.mp hc) key hw)) ?_
      exact fun ys hys => within_write hv hys
    | collection c =>
      have hc : sc.Has c := has_cell_collection.mp hc
      refine within_get_eq fun s t h => ⟨by rw [h.items hc], ?_⟩
      refine within_bind (within_ofExcept (has_replaceAt (h.closed.items hc) key hw)) ?_
      exact fun ys hys => within_fillList hc.1 hys
    | dict es => exact within_putEntry hv (has_cell_dict.mp hc) hkey hw
    | _ => exact within_fault _
  | _ => exact within_fault _

/-- An entry is dropped from the mapping in a cell. -/
theorem within_dropEntry {key : Value} (ha : sc.Has a) (hes : sc.Has es) (hkey : sc.Has key) :
    Within sc (do
      let s := (← get).store
      if s.isKey key then
        if Entries.contains s es key then write a (.dict (Entries.erase s es key))
        else fault (s.absentKey key)
      else fault .type) := by
  refine within_get_eq fun s t h => ⟨?_, ?_⟩
  · dsimp only
    rw [h.isKey hkey, h.contains hkey hes, h.erase hkey hes, h.absentKey hkey]
  · have herase := has_erase (s := t.store) hes key
    grind

@[grind ←]
theorem within_remove {key : Value} (hv : sc.Has v) (hkey : sc.Has key) :
    Within sc (remove v key) := by
  unfold remove
  cases v with
  | ref a =>
    refine within_bind (within_cell hv) fun c hc => ?_
    cases c with
    | list xs =>
      refine within_bind (within_ofExcept (has_removeAt (has_cell_list.mp hc) key)) ?_
      exact fun ys hys => within_write hv hys
    | collection c =>
      have hc : sc.Has c := has_cell_collection.mp hc
      refine within_get_eq fun s t h => ⟨by rw [h.items hc], ?_⟩
      refine within_bind (within_ofExcept (has_removeAt (h.closed.items hc) key)) ?_
      exact fun ys hys => within_fillList hc.1 hys
    | dict es => exact within_dropEntry hv (has_cell_dict.mp hc) hkey
    | _ => exact within_fault _
  | _ => exact within_fault _

/-! ## Operations on two values -/

@[grind ←]
theorem within_number (sc : Scope) (n : Number) : Within sc (number n) := by
  unfold number
  cases n with
  | int n => exact within_pure (has_int sc n)
  | float x =>
    dsimp only
    split
    · exact within_serial_bind fun n _ _ => within_pure (has_nan sc n)
    · exact within_pure (has_float sc x)

@[grind ←]
theorem within_arithmetic (sc : Scope) (f : Number → Number → Except ArithmeticFault Number)
    (a b : Number) : Within sc (arithmetic f a b) := by
  unfold arithmetic
  grind

@[grind ←]
theorem within_joined (hv : sc.Has v) (hw : sc.Has w) : Within sc (joined v w) := by
  unfold joined
  split
  · exact within_pure (has_str sc _)
  · exact within_pure (has_bytes sc _)
  · grind

@[grind ←]
theorem within_repeats {α : Type} [Scoped α] {xs : List α} (hxs : sc.Has xs) (beyond : Fault)
    (count : Int) : Within sc (repeats beyond xs count) := by
  unfold repeats
  grind

@[grind ←]
theorem within_repetition (hv : sc.Has v) (count : Int) : Within sc (repetition v count) := by
  unfold repetition
  grind

@[grind ←]
theorem within_difference (hv : sc.Has v) (hw : sc.Has w) : Within sc (difference v w) := by
  unfold difference
  refine within_get_bind fun s t h => ?_
  dsimp only
  rw [h.view hv, h.view hw]
  split
  · rename_i xs ys hc hd
    have hxs : sc.Has xs := h.closed.has_of_view hv hc
    have hys : sc.Has ys := h.closed.has_of_view hw hd
    rw [h.setDifference hxs hys]
    exact (within_make (has_cell_set.mpr (has_setDifference hxs))).from h
  · exact (within_fault _).from h

@[grind ←]
theorem within_formatted (hw : sc.Has w) : Within sc (formatted v w) := by
  unfold formatted
  refine within_get_eq fun s t h => ⟨?_, ?_⟩
  · dsimp only
    simp only [h.filled _ _ hw]
  · grind

theorem within_equal (hv : sc.Has v) (hw : sc.Has w) : Within sc (look (Store.equal · v w)) :=
  within_look fun _ _ h => ⟨h.equal hv hw, has_inert sc _⟩

theorem within_compare (c : Comparison) (hv : sc.Has v) (hw : sc.Has w) :
    Within sc (look (Store.compare · c v w)) :=
  within_look fun _ _ h => ⟨h.compare c hv hw, has_inert sc _⟩

@[grind ←]
theorem within_binary (op : BinaryOp) (hv : sc.Has v) (hw : sc.Has w) :
    Within sc (binary op v w) := by
  unfold binary
  cases op with
  | equal | unequal => exact within_bind (within_equal hv hw) fun b _ => within_pure (has_bool sc _)
  | compare c => exact within_bind (within_compare c hv hw) fun b _ => within_pure (has_bool sc _)
  | _ => grind

/-! ## Attributes -/

theorem has_numberAttribute (hv : sc.Has v) (n : Number) (name : String) :
    sc.Has (numberAttribute n v name) := by
  unfold numberAttribute
  grind

@[grind ←]
theorem within_patternAttribute (sc : Scope) (p : Pattern) (name : String) :
    Within sc (patternAttribute p name) := by
  unfold patternAttribute
  split
  · exact within_pure (has_some.mpr (has_str sc _))
  · exact within_pure (has_some.mpr (has_int sc _))
  · exact within_pure (has_some.mpr (has_int sc _))
  · refine within_bind (within_make (has_cell_frozen.mpr ?_)) fun w hw =>
      within_pure (has_some.mpr hw)
    exact has_map fun e _ => ⟨has_str sc _, has_int sc _⟩
  · exact within_pure (has_none sc)

theorem has_policyAttribute {p : Policy} (hp : sc.Has p) (name : String) :
    sc.Has (policyAttribute p name) := by
  unfold policyAttribute
  grind

@[grind ←]
theorem within_methodOf (ha : sc.Has a) (name : String) : Within sc (methodOf a name) :=
  within_serial_bind fun _ _ hn => within_pure (has_some.mpr ⟨hn, ha⟩)

@[grind ←]
theorem within_internalAttribute {c : Collection} (hc : sc.Has c) (name : String) :
    Within sc (internalAttribute c name) := by
  obtain ⟨hlist, hvalidators, hpolicy, hregistry, hgenerator, -⟩ := hc
  unfold internalAttribute
  split
  · exact within_pure (has_some.mpr hlist)
  · exact within_pure (has_some.mpr hvalidators)
  · exact within_pure (has_some.mpr hpolicy)
  · exact within_pure (has_some.mpr hregistry)
  · exact within_pure (has_some.mpr hgenerator)
  · exact within_pure (has_none sc)

@[grind ←]
theorem within_alongChain {α : Type} [Scoped α] {x : Action α} (ha : sc.Has a)
    (hx : Within sc x) : Within sc (alongChain a x) := by
  unfold alongChain
  refine within_get_eq fun s t h => ⟨by rw [h.isBounded ha], ?_⟩
  split
  · exact hx
  · exact within_fault _

/-- An extension of a collection is looked up in its registries, and made. -/
theorem within_extension {c : Collection} (ha : sc.Has a) (hc : sc.Has c) (name : String) :
    Within sc (do
      let s := (← get).store
      match registered? s name s.depth c.registry with
      | some f => return some (Value.extension (← serial) f (.ref a))
      | none => alongChain c.registry (pure none)) := by
  have hregistry := hc.2.2.2.1
  refine within_get_eq fun s t h => ⟨?_, ?_⟩
  · dsimp only
    rw [h.depth, h.registered? name _ hregistry]
  · dsimp only
    split
    · rename_i f hf
      have hf := h.closed.registered? name _ hregistry f hf
      exact within_serial_bind fun _ hn _ => within_pure (has_some.mpr ⟨hn, hf, ha⟩)
    · exact within_alongChain hregistry (within_pure (has_none sc))

@[grind ←]
theorem within_collectionAttribute {c : Collection} (ha : sc.Has a) (hc : sc.Has c)
    (name : String) : Within sc (collectionAttribute a c name) := by
  obtain ⟨-, hvalidators, hpolicy, hregistry, -, hfields⟩ := has_collection_iff.mp hc
  have hfield := hfields.lookup name
  unfold collectionAttribute
  split
  · exact within_get_eq fun s t h => ⟨by rw [h.items hc], within_pure (has_some.mpr (has_int sc _))⟩
  · exact within_pure (has_some.mpr hregistry)
  · exact within_pure (has_some.mpr hpolicy)
  · exact within_pure (has_some.mpr hvalidators)
  · split
    · rename_i v hv
      exact within_pure (has_some.mpr (hfield v hv))
    · split
      · exact within_pure (has_some.mpr (has_sharedRegistry sc))
      · split
        · exact within_methodOf ha name
        · split
          · exact within_internalAttribute hc name
          · exact within_extension ha hc name

@[grind ←]
theorem within_builderAttribute {b : Builder} (ha : sc.Has a) (hb : sc.Has b) (name : String) :
    Within sc (builderAttribute a b name) := by
  obtain ⟨hexecutor, hvalidators, hshown, -⟩ := has_builder_iff.mp hb
  unfold builderAttribute
  split
  · exact within_pure (has_some.mpr hshown)
  · exact within_pure (has_some.mpr hvalidators)
  · exact within_pure (has_some.mpr hexecutor)
  · split
    · exact within_methodOf ha name
    · exact within_pure (has_none sc)

@[grind ←]
theorem within_registryAttribute {r : Registry} (ha : sc.Has a) (hr : sc.Has r) (name : String) :
    Within sc (registryAttribute a r name) := by
  unfold registryAttribute
  split
  · have hparent : sc.Has (r.parent.map Value.ref) := hr.1.option_map fun _ hp => hp
    exact within_pure (has_some.mpr (hparent.getD (has_null sc)))
  · split
    · refine within_alongChain ha (within_get_eq fun s t h => ⟨?_, ?_⟩)
      · dsimp only
        rw [h.depth, h.reserved _ ha]
      · refine within_bind (within_make (has_cell_set.mpr (has_map fun _ _ => has_str sc _))) ?_
        exact fun v hv => within_pure (has_some.mpr hv)
    · split
      · exact within_methodOf ha name
      · exact within_pure (has_none sc)

theorem has_executorAttribute {e : Executor} (he : sc.Has e) (name : String) :
    sc.Has (executorAttribute e name) := by
  unfold executorAttribute
  grind

@[grind ←]
theorem within_extensionAttribute (hv : sc.Has v) (name : String) :
    Within sc (extensionAttribute v name) := by
  obtain ⟨hf, hreceivers⟩ := has_appliedTo hv (has_nil sc)
  unfold extensionAttribute
  dsimp only
  split
  · exact within_pure (has_some.mpr hf)
  · exact within_bind (within_make (has_cell_tuple.mpr hreceivers)) fun w hw =>
      within_pure (has_some.mpr hw)
  · exact within_bind (within_make (has_cell_dict.mpr (has_nil sc))) fun w hw =>
      within_pure (has_some.mpr hw)
  · exact within_pure (has_none sc)

@[grind ←]
theorem within_ownAttribute (hv : sc.Has v) (name : String) : Within sc (ownAttribute v name) := by
  unfold ownAttribute
  split
  · exact within_pure (has_numberAttribute hv _ name)
  · exact within_patternAttribute sc _ name
  · exact within_extensionAttribute hv name
  · rename_i a _
    refine within_get_eq fun s t h => ⟨by rw [h.cells hv], ?_⟩
    have hcell : ∀ {c : Cell}, t.store.cell? a = some c → sc.Has c := fun hc => h.closed.cells hv hc
    split
    case h_1 fs hc => exact within_pure ((has_cell_object.mp (hcell hc)).lookup name)
    case h_2 kind fs hc => exact within_pure ((has_cell_record.mp (hcell hc)).lookup name)
    case h_3 kind fs hc =>
      have hfs := has_cell_custom.mp (hcell hc)
      split
      · exact within_throw _
      · split
        · exact within_pure (has_none sc)
        · exact within_pure (hfs.lookup name)
    case h_4 c hc => exact within_collectionAttribute hv (has_cell_collection.mp (hcell hc)) name
    case h_5 p hc => exact within_pure (has_policyAttribute (has_cell_policy.mp (hcell hc)) name)
    case h_6 b hc => exact within_builderAttribute hv (has_cell_builder.mp (hcell hc)) name
    case h_7 r hc => exact within_registryAttribute hv (has_cell_registry.mp (hcell hc)) name
    case h_8 e hc =>
      exact within_pure (has_executorAttribute (has_cell_executor.mp (hcell hc)) name)
    case h_9 => exact within_pure (has_none sc)
  · exact within_pure (has_none sc)

@[grind ←]
theorem within_attribute? (hv : sc.Has v) (name : String) : Within sc (attribute? v name) := by
  unfold attribute?
  refine within_get_eq fun s t h => ⟨by rw [h.mark? hv], ?_⟩
  split
  · rename_i x hx
    exact within_pure (has_some.mpr (h.closed.mark? hv name x hx))
  · exact within_ownAttribute hv name

@[grind ←]
theorem within_lacking {α : Type} [Scoped α] (hv : sc.Has v) (name : String) :
    Within sc (lacking v name : Action α) := by
  unfold lacking
  refine within_get_eq fun s t h => ⟨by rw [h.collection? hv], ?_⟩
  split
  · exact within_throw _
  · exact within_fault _

@[grind ←]
theorem within_attributeOf (hv : sc.Has v) (name : String) : Within sc (attributeOf v name) := by
  unfold attributeOf
  refine within_bind (within_attribute? hv name) fun found hfound => ?_
  split
  · exact within_pure (has_some.mp hfound)
  · exact within_lacking hv name

/-! ## Plain values -/

theorem within_plainAll {plain : Value → Action Value}
    (hplain : ∀ v, sc.Has v → Within sc (plain v)) (hxs : sc.Has xs) :
    Within sc (plainAll plain xs) := by
  induction xs with
  | nil => exact within_pure (has_nil sc)
  | cons x xs ih =>
    obtain ⟨hx, hxs⟩ := has_cons.mp hxs
    have ih := ih hxs
    unfold plainAll
    grind

theorem within_plainEntries {plain : Value → Action Value}
    (hplain : ∀ v, sc.Has v → Within sc (plain v)) (hes : sc.Has es) :
    Within sc (plainEntries plain es) := by
  rw [plainEntries_eq]
  exact within_bind (within_plainAll hplain hes.map_snd) fun ws hws =>
    within_pure (hes.map_fst.zip hws)

theorem within_plainAt (fuel : Nat) : ∀ {v : Value}, sc.Has v → Within sc (plainAt fuel v) := by
  induction fuel with
  | zero => exact fun _ => within_fault _
  | succ fuel ih =>
    intro v hv
    unfold plainAt
    refine within_get_eq fun s t h => ⟨?_, ?_⟩
    · dsimp only
      rw [h.entries? hv, h.plainItems? hv]
    · dsimp only
      split
      · rename_i es hes
        refine within_bind
          (within_plainEntries (fun v hv => ih hv) (h.closed.entries? hv es hes)) ?_
        exact fun ps hps => within_make (has_cell_dict.mpr hps)
      · rename_i xs _ hxs
        refine within_bind (within_plainAll (fun v hv => ih hv) (h.closed.plainItems? hv xs hxs)) ?_
        exact fun ys hys => within_make (has_cell_list.mpr hys)
      · exact within_pure hv

@[grind ←]
theorem within_plain (hv : sc.Has v) : Within sc (plain v) := by
  unfold plain
  exact within_get_eq fun s t h => ⟨by rw [h.depth], within_plainAt _ hv⟩

end Action

/-! ## Paths -/

namespace Path

open Recordset.Action

variable {sc : Scope} {v w : Value} {xs segments : List Value}

theorem has_segments (sc : Scope) (path : String) : sc.Has (Path.segments path) := by
  unfold Path.segments
  split
  · exact has_nil sc
  · exact has_map fun _ _ => has_str sc _

@[grind ←]
theorem within_split (hv : sc.Has v) : Within sc (look (split v)) := by
  refine within_look fun s t h => ?_
  unfold split
  rw [h.view hv]
  refine ⟨rfl, ?_⟩
  split
  · exact has_ok.mpr (has_nil sc)
  · exact has_ok.mpr (has_segments sc _)
  · split
    · exact has_error sc _
    · exact has_ok.mpr (has_cons.mpr ⟨hv, has_nil sc⟩)

/-- What stands at a place of a list, or the marker for an absent value. -/
theorem has_place (hxs : sc.Has xs) (place : Option Nat) :
    sc.Has ((place.bind (xs[·]?)).getD .missing) := by
  refine Has.getD ?_ (has_missing sc)
  cases place with
  | none => exact has_none sc
  | some n => exact hxs.getElem? n

@[grind ←]
theorem within_step (hv : sc.Has v) (hw : sc.Has w) : Within sc (step v w) := by
  unfold step
  refine within_get_bind fun s t h => ?_
  dsimp only
  rw [h.entries? hv, h.isKey hw, h.sequence? hv, h.unreadable? hv]
  split
  · rename_i es hes
    have hes : sc.Has es := h.closed.entries? hv es hes
    rw [h.find? hw hes]
    split
    · exact (within_pure ((has_find? hes w).getD (has_missing sc))).from h
    · exact (within_fault _).from h
  · split
    · rename_i xs hxs
      have hxs : sc.Has xs := h.closed.sequence? hv xs hxs
      refine (within_bind (within_ofExcept (has_inert sc _)) fun i _ => ?_).from h
      split
      · exact within_pure (has_place hxs _)
      · exact within_pure (has_missing sc)
    · refine (within_bind (within_ofExcept (has_inert sc _)) fun i _ => ?_).from h
      split
      · split
        · exact within_pure (has_missing sc)
        · exact within_throw _
      · exact within_pure (has_missing sc)
    · split
      · exact (within_pure (has_missing sc)).from h
      · split
        · refine (within_bind (within_attribute? hv _) fun found hfound => ?_).from h
          exact within_pure (hfound.getD (has_missing sc))
        · exact (within_pure (has_missing sc)).from h

@[grind ←]
theorem within_follow (hsegments : sc.Has segments) : ∀ {v : Value}, sc.Has v →
    Within sc (follow segments v) := by
  induction segments with
  | nil => exact fun hv => within_pure hv
  | cons segment rest ih =>
    intro v hv
    obtain ⟨hsegment, hrest⟩ := has_cons.mp hsegments
    unfold follow
    refine within_bind (within_step hv hsegment) fun next hnext => ?_
    split
    · exact within_pure (has_missing sc)
    · exact ih hrest hnext

@[grind ←]
theorem within_resolve {item path default : Value} (hitem : sc.Has item) (hpath : sc.Has path)
    (hdefault : sc.Has default) : Within sc (resolve item path default) := by
  unfold resolve
  refine within_bind (within_split hpath) fun segments hsegments => ?_
  split
  · exact within_pure hitem
  · refine within_bind (within_follow hsegments hitem) fun found hfound => ?_
    split
    · exact within_pure hdefault
    · exact within_pure hfound

@[grind ←]
theorem within_value (hv : sc.Has v) (hw : sc.Has w) : Within sc (value v w) :=
  within_resolve hv hw (has_missing sc)

@[grind ←]
theorem within_has (hv : sc.Has v) (hw : sc.Has w) : Within sc (has v w) :=
  within_bind (within_value hv hw) fun _ _ => within_pure (has_inert sc _)

/-- A changed value is put under a key of a copy. -/
theorem within_insert {es : Entries} (hes : sc.Has es) (hv : sc.Has v) (hw : sc.Has w) :
    Within sc (do make (.dict (Entries.insert (← get).store es v w))) := by
  refine within_get_eq fun s t h => ⟨by rw [h.insert hv hes], ?_⟩
  exact within_make (has_cell_dict.mpr (has_insert hes hv hw))

@[grind ←]
theorem within_withoutAt (hsegments : sc.Has segments) : ∀ {v : Value}, sc.Has v →
    Within sc (withoutAt segments v) := by
  induction segments with
  | nil => exact fun hv => within_pure hv
  | cons head rest ih =>
    intro v hv
    obtain ⟨hhead, hrest⟩ := has_cons.mp hsegments
    unfold withoutAt
    refine within_get_bind fun s t h => ?_
    dsimp only
    rw [h.entries? hv, h.isKey hhead]
    split
    · exact (within_pure hv).from h
    · rename_i es hes
      have hes : sc.Has es := h.closed.entries? hv es hes
      have hfound := has_find? (s := t.store) hes head
      rw [h.find? hhead hes, h.erase hhead hes]
      split
      · exact (within_fault _).from h
      · split
        · exact (within_pure hv).from h
        · rename_i inner hinner
          have hinner : sc.Has inner := hfound inner hinner
          split
          · exact (within_make (has_cell_dict.mpr (has_erase hes head))).from h
          · have hlast : ∀ changed, sc.Has changed → Within sc (do
                make (.dict (Entries.insert (← get).store es head changed))) :=
              fun _ hchanged => within_insert hes hhead hchanged
            split
            · exact (within_bind (within_pure hinner) hlast).from h
            · exact (within_bind (ih hrest hinner) hlast).from h

@[grind ←]
theorem within_without (hv : sc.Has v) (hw : sc.Has w) : Within sc (without v w) :=
  within_bind (within_split hw) fun _ hsegments => within_withoutAt hsegments hv

end Path

end Recordset
