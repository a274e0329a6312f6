import Mathlib.Data.Option.Basic
import Recordset.Proofs.Entries
import Recordset.Proofs.Extension.Chain
import Recordset.Proofs.Made
import Recordset.Proofs.Path.Route
import Recordset.Proofs.Query.Testing
set_option autoImplicit false

/-!
# Looking from two later states

What is found at a path of a value that had been made by a certain moment is looked up in two states
that come later.  Either it had been made as well, and then the same is found in both; or it is made
anew by looking it up, as methods, extensions and some attributes are, and then the two are alike
(`State.Alike`).  Where the path breaks in one of the two states, it breaks in the other one in the
same way.

`Path.value_together` is the main statement.
-/

namespace Recordset

open Recordset.Action

/-! ## Chains of registries in later states -/

namespace Registry

/-- The chain of a registry that had been made is as it was. -/
theorem chainAt_later {s t : State} (h : s.Later t) (hroot : s.store.Rooted) :
    ∀ (fuel : Nat) {a : Address}, a.index < s.store.size →
      chainAt t.store fuel a = chainAt s.store fuel a := by
  intro fuel
  induction fuel with
  | zero => exact fun _ => rfl
  | succ fuel ih =>
    intro a ha
    unfold chainAt
    rw [h.cell? ha]
    split
    · rename_i r hr
      cases hparent : r.parent with
      | none => rfl
      | some p => exact congrArg (r :: ·) (ih (Nat.lt_trans (hroot hr hparent) ha))
    · rfl

theorem chain_later {s t : State} (h : s.Later t) (hroot : s.store.Rooted) {a : Address}
    (ha : a.index < s.store.size) : chain t.store a = chain s.store a := by
  unfold chain Store.depth
  rw [chainAt_later h hroot _ ha]
  have hsize := h.size_le
  exact chainAt_eq hroot (by omega) (by omega)

/-- The reserved names that a registry shows are those of its chain. -/
theorem reserved_eq_chainAt {s : Store} :
    ∀ (fuel : Nat) (a : Address),
      Action.reserved s fuel a = (chainAt s fuel a).flatMap (·.reserved) := by
  intro fuel
  induction fuel with
  | zero => exact fun _ => rfl
  | succ fuel ih =>
    intro a
    unfold Action.reserved chainAt
    cases s.cell? a with
    | none => rfl
    | some c =>
      cases c with
      | registry r =>
        dsimp only
        rw [List.flatMap_cons]
        cases r.parent with
        | none => rfl
        | some p => exact congrArg (r.reserved ++ ·) (ih p)
      | _ => rfl

/-- The registries of a chain are in cells. -/
theorem exists_cell_of_mem_chainAt {s : Store} {r : Registry} :
    ∀ (fuel : Nat) {a : Address}, r ∈ chainAt s fuel a → ∃ b, s.cell? b = some (.registry r) := by
  intro fuel
  induction fuel with
  | zero => exact fun hr => by cases hr
  | succ fuel ih =>
    intro a hr
    unfold chainAt at hr
    split at hr
    · rename_i q hq
      rcases List.mem_cons.mp hr with rfl | hr
      · exact ⟨a, hq⟩
      · split at hr
        · exact ih hr
        · cases hr
    · cases hr

/-- What a chain of registries has under a name had been made. -/
theorem made_of_lookup {s : State} (hwhole : s.Whole) {a : Address} {name : String} {f : Value}
    (h : lookup s.store a name = some f) : s.Made f := by
  unfold lookup chain at h
  obtain ⟨r, hr, hf⟩ := List.exists_of_findSome?_eq_some h
  obtain ⟨b, hb⟩ := exists_cell_of_mem_chainAt _ hr
  unfold get? at hf
  obtain ⟨e, he, rfl⟩ := Option.map_eq_some_iff.mp hf
  exact hwhole.made_of_cell? hb (List.mem_map_of_mem (List.mem_of_find?_eq_some he))

end Registry

/-! ## Two later states -/

/-- Whether a cell is of a kind that looking up an attribute can make. -/
def Cell.isPlain : Cell → Bool
  | .tuple _ | .set _ | .dict _ | .frozen _ => true
  | _ => false

namespace State

/-- Values found in two states that come later: the same value that had been made, or two values
that have been made since and hold the same. -/
inductive Alike (s : State) (t₁ t₂ : Store) : Value → Value → Prop where
  | made {v : Value} (h : s.Made v) : Alike s t₁ t₂ v v
  | fresh {a b : Address} {c : Cell} (ha : s.store.size ≤ a.index) (hb : s.store.size ≤ b.index)
    (h₁ : t₁.cell? a = some c) (h₂ : t₂.cell? b = some c) (hplain : c.isPlain = true)
    (hmade : ∀ v ∈ c.contents, s.Made v) : Alike s t₁ t₂ (.ref a) (.ref b)
  | method {i j : Nat} {a : Address} {name : String} (hi : s.serial ≤ i) (hj : s.serial ≤ j) :
    Alike s t₁ t₂ (.method i a name) (.method j a name)
  | extension {i j : Nat} {f receiver : Value} (hi : s.serial ≤ i) (hj : s.serial ≤ j)
    (hf : s.Made f) (hreceiver : s.Made receiver) :
    Alike s t₁ t₂ (.extension i f receiver) (.extension j f receiver)

end State

namespace Action

variable {α β : Type} {s t₁ t₂ : State}

/-- Two actions come from two states to their ends in the same way: they give related results, and
each makes as many cells as the other; or they fail with the same error. -/
inductive Together (t₁ t₂ : State) (x y : Action α) (R : Store → Store → α → α → Prop) : Prop where
  | given {v w : α} {u₁ u₂ : State} (hx : x.execute t₁ = (.ok v, u₁))
    (hy : y.execute t₂ = (.ok w, u₂)) (h₁ : t₁.Later u₁) (h₂ : t₂.Later u₂)
    (hsize : u₁.store.size + t₂.store.size = u₂.store.size + t₁.store.size)
    (h : R u₁.store u₂.store v w) : Together t₁ t₂ x y R
  | failed {e : Error} {u₁ u₂ : State} (hx : x.execute t₁ = (.error e, u₁))
    (hy : y.execute t₂ = (.error e, u₂)) (h₁ : t₁.Later u₁) (h₂ : t₂.Later u₂) :
    Together t₁ t₂ x y R

/-- Values that may be absent are alike when both are, or are alike. -/
def OptionAlike (s : State) (t₁ t₂ : Store) : Option Value → Option Value → Prop :=
  Option.Rel (s.Alike t₁ t₂)

variable {R : Store → Store → α → α → Prop} {Q : Store → Store → β → β → Prop} {x y : Action α}

/-- What the actions do elsewhere makes no difference. -/
theorem Together.congr {x' y' : Action α} (h : Together t₁ t₂ x' y' R)
    (hx : x.execute t₁ = x'.execute t₁) (hy : y.execute t₂ = y'.execute t₂) :
    Together t₁ t₂ x y R := by
  cases h with
  | given hx' hy' hu₁ hu₂ hsize h =>
    exact .given (hx.trans hx') (hy.trans hy') hu₁ hu₂ hsize h
  | failed hx' hy' hu₁ hu₂ => exact .failed (hx.trans hx') (hy.trans hy') hu₁ hu₂

theorem together_pure {v w : α} (h : R t₁.store t₂.store v w) :
    Together t₁ t₂ (pure v) (pure w) R :=
  .given rfl rfl (.refl t₁) (.refl t₂) (Nat.add_comm _ _) h

theorem together_throw (e : Error) : Together t₁ t₂ (throw e : Action α) (throw e) R :=
  .failed rfl rfl (.refl t₁) (.refl t₂)

theorem together_bind {f g : α → Action β} (hx : Together t₁ t₂ x y R)
    (hf : ∀ v w u₁ u₂, t₁.Later u₁ → t₂.Later u₂ →
      u₁.store.size + t₂.store.size = u₂.store.size + t₁.store.size → R u₁.store u₂.store v w →
      Together u₁ u₂ (f v) (g w) Q) :
    Together t₁ t₂ (x >>= f) (y >>= g) Q := by
  cases hx with
  | @given v w u₁ u₂ hxrun hyrun hu₁ hu₂ hsize hvw =>
    have hfirst := execute_bind_of_ok (f := f) hxrun
    have hsecond := execute_bind_of_ok (f := g) hyrun
    cases hf v w u₁ u₂ hu₁ hu₂ hsize hvw with
    | given hfrun hgrun hu₁' hu₂' hsize' hvw' =>
      exact .given (hfirst.trans hfrun) (hsecond.trans hgrun) (hu₁.trans hu₁') (hu₂.trans hu₂')
        (by omega) hvw'
    | failed hfrun hgrun hu₁' hu₂' =>
      exact .failed (hfirst.trans hfrun) (hsecond.trans hgrun) (hu₁.trans hu₁') (hu₂.trans hu₂')
  | failed hxrun hyrun hu₁ hu₂ =>
    exact .failed (execute_bind_of_error hxrun) (execute_bind_of_error hyrun) hu₁ hu₂

theorem together_get_bind {f g : State → Action β} (h : Together t₁ t₂ (f t₁) (g t₂) Q) :
    Together t₁ t₂ (get >>= f) (get >>= g) Q := h.congr rfl rfl

/-! ## Attributes -/

section

variable (h₁ : s.Later t₁) (h₂ : s.Later t₂)

/-- What may be absent is the same where it had been made. -/
theorem together_made? {o : Option Value} (h : ∀ w, o = some w → s.Made w) :
    Together t₁ t₂ (pure o) (pure o) (OptionAlike s) := by
  refine together_pure ?_
  cases o with
  | none => exact .none
  | some w => exact .some (.made (h w rfl))

theorem together_some {w : Value} (h : s.Made w) :
    Together t₁ t₂ (pure (some w)) (pure (some w)) (OptionAlike s) :=
  together_pure (.some (.made h))

theorem together_none :
    Together t₁ t₂ (pure (none : Option Value)) (pure none) (OptionAlike s) :=
  together_pure .none

include h₁ h₂

/-- Cells that are made anew with the same content are alike. -/
theorem together_make {c : Cell} (hplain : c.isPlain = true) (hmade : ∀ v ∈ c.contents, s.Made v) :
    Together t₁ t₂ (do return some (← make c)) (do return some (← make c)) (OptionAlike s) := by
  refine .given rfl rfl (t₁.later_alloc c) (t₂.later_alloc c) ?_ (.some ?_)
  · simp only [Store.size, Array.size_push]
    omega
  · exact .fresh h₁.size_le h₂.size_le (t₁.store.cell?_alloc c) (t₂.store.cell?_alloc c) hplain
      hmade

theorem together_serial {f g : Nat → Action (Option Value)}
    (h : ∀ i j u₁ u₂, s.serial ≤ i → s.serial ≤ j → s.Later u₁ → s.Later u₂ →
      Together u₁ u₂ (f i) (g j) (OptionAlike s)) :
    Together t₁ t₂ (serial >>= f) (serial >>= g) (OptionAlike s) := by
  have hlater : ∀ t : State, t.Later { t with serial := t.serial + 1 } := fun t =>
    ⟨⟨fun _ _ h => h, rfl⟩, Nat.le_succ _⟩
  refine together_bind (R := fun _ _ i j => s.serial ≤ i ∧ s.serial ≤ j) ?_ ?_
  · exact .given rfl rfl (hlater t₁) (hlater t₂) (Nat.add_comm _ _) ⟨h₁.serial, h₂.serial⟩
  · exact fun i j u₁ u₂ hu₁ hu₂ _ hij => h i j u₁ u₂ hij.1 hij.2 (h₁.trans hu₁) (h₂.trans hu₂)

theorem together_methodOf (a : Address) (name : String) :
    Together t₁ t₂ (methodOf a name) (methodOf a name) (OptionAlike s) := by
  unfold methodOf
  exact together_serial h₁ h₂ fun i j u₁ u₂ hi hj _ _ => together_pure (.some (.method hi hj))

theorem together_patternAttribute (p : Pattern) (name : String) :
    Together t₁ t₂ (patternAttribute p name) (patternAttribute p name) (OptionAlike s) := by
  unfold patternAttribute
  split
  · exact together_some trivial
  · exact together_some trivial
  · exact together_some trivial
  · refine together_make h₁ h₂ rfl ?_
    intro v hv
    simp only [Cell.contents, Cell.parts, List.flatMap_map, List.mem_flatMap] at hv
    obtain ⟨e, -, he⟩ := hv
    simp only [List.mem_cons, List.not_mem_nil, or_false] at he
    rcases he with rfl | rfl <;> trivial
  · exact together_none

/-- What takes the chain of a registry that had been made is done from both states. -/
theorem together_alongChain {x y : Action (Option Value)} {a : Address} (hroot : s.store.Rooted)
    (ha : a.index < s.store.size) (h : Together t₁ t₂ x y (OptionAlike s)) :
    Together t₁ t₂ (alongChain a x) (alongChain a y) (OptionAlike s) := by
  have hbounded : ∀ t : State, s.Later t → isBounded t.store a = true := fun t ht =>
    isBounded_of_cells hroot ht.size_le (fun _ hb => ht.cell? hb) ha
  unfold alongChain
  refine together_get_bind ?_
  rw [hbounded t₁ h₁, hbounded t₂ h₂]
  exact h

omit h₁ h₂ in
theorem together_internalAttribute {c : Collection}
    (hparts : ∀ v ∈ [.ref c.list, .ref c.validators, .ref c.policy, .ref c.registry,
      .ref c.generator], s.Made v) (name : String) :
    Together t₁ t₂ (internalAttribute c name) (internalAttribute c name) (OptionAlike s) := by
  unfold internalAttribute
  split
  · exact together_some (hparts _ (by simp))
  · exact together_some (hparts _ (by simp))
  · exact together_some (hparts _ (by simp))
  · exact together_some (hparts _ (by simp))
  · exact together_some (hparts _ (by simp))
  · exact together_none

theorem together_collectionAttribute {c : Collection} {a : Address} (hwhole : s.Whole)
    (hroot : s.store.Rooted) (hc : s.store.cell? a = some (.collection c)) (name : String) :
    Together t₁ t₂ (collectionAttribute a c name) (collectionAttribute a c name)
      (OptionAlike s) := by
  have hparts : ∀ v ∈ [.ref c.list, .ref c.validators, .ref c.policy, .ref c.registry,
      .ref c.generator], s.Made v := fun v hv =>
    hwhole.made_of_cell? hc (List.mem_append_left _ hv)
  unfold collectionAttribute
  split
  · refine together_get_bind ?_
    have hc' : s.store.view (.ref a) = some (.collection c) := hc
    rw [h₁.items hwhole hc', h₂.items hwhole hc']
    exact together_some trivial
  · exact together_some (hparts _ (by simp))
  · exact together_some (hparts _ (by simp))
  · exact together_some (hparts _ (by simp))
  · split
    · rename_i v hfield
      refine together_some (hwhole.made_of_lookup hc (fun x hx => ?_) hfield)
      exact List.mem_append_right _ hx
    · split_ifs
      · exact together_some hwhole.shared
      · exact together_methodOf h₁ h₂ a name
      · exact together_internalAttribute hparts name
      · refine together_get_bind ?_
        have hregistry : c.registry.index < s.store.size := hparts (.ref c.registry) (by simp)
        have hlookup : ∀ t : State, s.Later t →
            registered? t.store name t.store.depth c.registry =
              Registry.lookup s.store c.registry name := by
          intro t ht
          rw [Registry.registered?_eq_lookup]
          unfold Registry.lookup
          rw [Registry.chain_later ht hroot hregistry]
        dsimp only
        rw [hlookup t₁ h₁, hlookup t₂ h₂]
        split
        · rename_i f hf
          refine together_serial h₁ h₂ fun i j u₁ u₂ hi hj _ _ => together_pure (.some ?_)
          exact .extension hi hj (Registry.made_of_lookup hwhole hf)
            (Array.getElem?_eq_some_iff.mp hc).1
        · exact together_alongChain h₁ h₂ hroot hregistry together_none

theorem together_builderAttribute {b : Builder} {a : Address} (hwhole : s.Whole)
    (hb : s.store.cell? a = some (.builder b)) (name : String) :
    Together t₁ t₂ (builderAttribute a b name) (builderAttribute a b name) (OptionAlike s) := by
  have hparts : ∀ v ∈ [b.executor, b.validators, b.shown], s.Made v := fun v hv =>
    hwhole.made_of_cell? hb hv
  unfold builderAttribute
  split
  · exact together_some (hparts _ (by simp))
  · exact together_some (hparts _ (by simp))
  · exact together_some (hparts _ (by simp))
  · split_ifs
    · exact together_methodOf h₁ h₂ a name
    · exact together_none

theorem together_registryAttribute {r : Registry} {a : Address} (hroot : s.store.Rooted)
    (hr : s.store.cell? a = some (.registry r)) (name : String) :
    Together t₁ t₂ (registryAttribute a r name) (registryAttribute a r name)
      (OptionAlike s) := by
  have ha : a.index < s.store.size := (Array.getElem?_eq_some_iff.mp hr).1
  unfold registryAttribute
  split_ifs
  · refine together_some ?_
    cases hparent : r.parent with
    | none => trivial
    | some p => exact Nat.lt_trans (hroot hr hparent) ha
  · refine together_alongChain h₁ h₂ hroot ha (together_get_bind ?_)
    have hreserved : ∀ t : State, s.Later t →
        reserved t.store t.store.depth a = Registry.reservedNames s.store a := by
      intro t ht
      rw [Registry.reserved_eq_chainAt]
      show (Registry.chain t.store a).flatMap _ = _
      rw [Registry.chain_later ht hroot ha]
      rfl
    dsimp only
    rw [hreserved t₁ h₁, hreserved t₂ h₂]
    refine together_make h₁ h₂ rfl ?_
    intro v hv
    obtain ⟨t, -, rfl⟩ := List.mem_map.mp hv
    trivial
  · exact together_methodOf h₁ h₂ a name
  · exact together_none

/-- An extension has been given its function and arguments, however often it was made anew. -/
theorem together_extensionAttribute {v w : Value}
    (hsame : v.appliedTo [] = w.appliedTo []) (hf : s.Made (v.appliedTo []).1)
    (hreceivers : ∀ x ∈ (v.appliedTo []).2, s.Made x) (name : String) :
    Together t₁ t₂ (extensionAttribute v name) (extensionAttribute w name) (OptionAlike s) := by
  unfold extensionAttribute
  rw [← hsame]
  dsimp only
  split
  · exact together_some hf
  · exact together_make h₁ h₂ rfl hreceivers
  · exact together_make h₁ h₂ rfl fun x hx => by cases hx
  · exact together_none

end

/-- What an extension that had been made has been given had been made. -/
theorem made_appliedTo :
    ∀ {v : Value} (given : List Value), s.Made v → (∀ x ∈ given, s.Made x) →
      s.Made (v.appliedTo given).1 ∧ ∀ x ∈ (v.appliedTo given).2, s.Made x := by
  intro v
  induction v with
  | extension serial f receiver ihf _ =>
    intro given hv hgiven
    refine ihf (receiver :: given) hv.2.1 fun x hx => ?_
    rcases List.mem_cons.mp hx with rfl | hx
    · exact hv.2.2
    · exact hgiven x hx
  | _ => exact fun given hv hgiven => ⟨hv, hgiven⟩

theorem made_of_numberAttribute {n : Number} {v w : Value} {name : String} (hv : s.Made v)
    (h : numberAttribute n v name = some w) : s.Made w := by
  unfold numberAttribute at h
  split at h <;> split_ifs at h <;> cases h <;> first | exact hv | trivial

theorem made_of_policyAttribute {p : Policy} {w : Value} {name : String}
    (hp : ∀ x ∈ (Cell.policy p).contents, s.Made x) (h : policyAttribute p name = some w) :
    s.Made w := by
  unfold policyAttribute at h
  split at h <;> cases h
  · exact hp _ (by simp [Cell.contents, Cell.parts])
  · exact hp _ (by simp [Cell.contents, Cell.parts])
  · trivial
  · exact hp _ (by simp [Cell.contents, Cell.parts])

theorem made_of_executorAttribute {e : Executor} {w : Value} {name : String}
    (he : ∀ x ∈ (Cell.executor e).contents, s.Made x) (h : executorAttribute e name = some w) :
    s.Made w := by
  unfold executorAttribute at h
  split at h <;> cases h
  · exact he _ (by simp [Cell.contents])
  · exact he _ (by simp [Cell.contents])

section

variable (h₁ : s.Later t₁) (h₂ : s.Later t₂) (hwhole : s.Whole) (hroot : s.store.Rooted)

include h₁ h₂ hwhole hroot

theorem together_ownAttribute {v : Value} (hv : s.Made v) (name : String) :
    Together t₁ t₂ (ownAttribute v name) (ownAttribute v name) (OptionAlike s) := by
  unfold ownAttribute
  split
  · exact together_made? fun w hw => made_of_numberAttribute hv hw
  · exact together_patternAttribute h₁ h₂ _ name
  · obtain ⟨hf, hreceivers⟩ := made_appliedTo [] hv fun x hx => by cases hx
    exact together_extensionAttribute h₁ h₂ rfl hf hreceivers name
  · rename_i a _
    refine together_get_bind ?_
    rw [h₁.cell? hv, h₂.cell? hv]
    split
    · rename_i fs hfs
      exact together_made? fun w hw => hwhole.made_of_lookup hfs (fun _ hx => hx) hw
    · rename_i fs hfs
      exact together_made? fun w hw => hwhole.made_of_lookup hfs (fun _ hx => hx) hw
    · rename_i fs hfs
      split
      · exact together_throw _
      · refine together_made? fun w hw => ?_
        split_ifs at hw
        exact hwhole.made_of_lookup hfs (fun _ hx => hx) hw
    · rename_i hc
      exact together_collectionAttribute h₁ h₂ hwhole hroot hc name
    · rename_i hp
      exact together_made? fun w hw => made_of_policyAttribute (fun x => hwhole.made_of_cell? hp) hw
    · rename_i hb
      exact together_builderAttribute h₁ h₂ hwhole hb name
    · rename_i hr
      exact together_registryAttribute h₁ h₂ hroot hr name
    · rename_i he
      exact together_made? fun w hw =>
        made_of_executorAttribute (fun x => hwhole.made_of_cell? he) hw
    · exact together_none
  · exact together_none

/-- An attribute of a value that had been made. -/
theorem together_attribute?_of_made {v : Value} (hv : s.Made v) (name : String) :
    Together t₁ t₂ (attribute? v name) (attribute? v name) (OptionAlike s) := by
  unfold attribute?
  refine together_get_bind ?_
  rw [h₁.mark? v name, h₂.mark? v name]
  split
  · rename_i x hx
    exact together_some (hwhole.made_of_mark? hx)
  · exact together_ownAttribute h₁ h₂ hwhole hroot hv name

/-- An attribute of values that are alike. -/
theorem together_attribute? {v w : Value} (h : s.Alike t₁.store t₂.store v w) (name : String) :
    Together t₁ t₂ (attribute? v name) (attribute? w name) (OptionAlike s) := by
  have hnew : ∀ x : Value, (∀ m, s.Made m → m.same x = false) → ∀ t : State, s.Later t →
      t.store.mark? x name = none := fun x hx t ht =>
    (ht.mark? x name).trans (hwhole.mark?_eq_none hx name)
  cases h with
  | made h => exact together_attribute?_of_made h₁ h₂ hwhole hroot h name
  | @fresh a b c ha hb hc hd hplain hmade =>
    have hnone : ∀ (x : Address) (t : State), s.Later t → s.store.size ≤ x.index →
        t.store.cell? x = some c → (attribute? (.ref x) name).execute t = (.ok none, t) := by
      intro x t ht hx hcell
      unfold attribute?
      rw [execute_get_bind, hnew _ (fun m hm => hm.same_ref hx) t ht]
      unfold ownAttribute
      dsimp only [Value.number?]
      rw [execute_get_bind, hcell]
      cases c with
      | tuple | set | dict | frozen => rfl
      | _ => cases hplain
    exact .given (hnone a t₁ h₁ ha hc) (hnone b t₂ h₂ hb hd) (.refl t₁) (.refl t₂)
      (Nat.add_comm _ _) .none
  | @method i j a key hi hj =>
    unfold attribute?
    refine together_get_bind ?_
    rw [hnew _ (fun m hm => hm.same_method hi) t₁ h₁, hnew _ (fun m hm => hm.same_method hj) t₂ h₂]
    exact together_none
  | @extension i j f receiver hi hj hf hreceiver =>
    unfold attribute?
    refine together_get_bind ?_
    rw [hnew _ (fun m hm => hm.same_extension hi) t₁ h₁,
      hnew _ (fun m hm => hm.same_extension hj) t₂ h₂]
    obtain ⟨hfunction, hreceivers⟩ := made_appliedTo [receiver] hf fun x hx => by
      rw [List.mem_singleton.mp hx]
      exact hreceiver
    exact together_extensionAttribute h₁ h₂ (v := .extension i f receiver)
      (w := .extension j f receiver) rfl hfunction hreceivers name

end

end Action

/-! ## Paths -/

section

variable {s t₁ t₂ : State} (h₁ : s.Later t₁) (h₂ : s.Later t₂) (hwhole : s.Whole)
  (hroot : s.store.Rooted)

include h₁ h₂ hwhole

/-- Values that are alike have the same cell, or none, and what it holds had been made. -/
theorem State.Alike.view {v w : Value} (h : s.Alike t₁.store t₂.store v w) :
    t₁.store.view v = t₂.store.view w ∧
      ∀ c, t₁.store.view v = some c → ∀ x ∈ c.contents, s.Made x := by
  cases h with
  | made h =>
    refine ⟨(h₁.view h).trans (h₂.view h).symm, fun c hc x hx => ?_⟩
    exact hwhole.made_of_view ((h₁.view h).symm.trans hc) hx
  | fresh ha hb hc hd hplain hmade =>
    refine ⟨hc.trans hd.symm, fun c hview => ?_⟩
    cases hc.symm.trans hview
    exact hmade
  | method => exact ⟨rfl, fun c hc => by cases hc⟩
  | extension => exact ⟨rfl, fun c hc => by cases hc⟩

include hroot

namespace Path

/-- One segment away from values that are alike. -/
theorem together_step {v w : Value} (h : s.Alike t₁.store t₂.store v w) (name : String) :
    Together t₁ t₂ (step v (.str name)) (step w (.str name)) s.Alike := by
  obtain ⟨hview, hmade⟩ := h.view h₁ h₂ hwhole
  have hentries : t₁.store.entries? v = t₂.store.entries? w := by
    unfold Store.entries?
    rw [hview]
  have hsequence : t₁.store.sequence? v = t₂.store.sequence? w := by
    unfold Store.sequence?
    rw [hview]
  have hunreadable : t₁.store.unreadable? v = t₂.store.unreadable? w := by
    unfold Store.unreadable?
    rw [hview]
  have habsent : v.isAbsent = w.isAbsent := by cases h <;> rfl
  unfold step
  refine together_get_bind ?_
  dsimp only
  rw [← hentries, ← hsequence, ← hunreadable, ← habsent]
  cases hes : t₁.store.entries? v with
  | some es =>
    dsimp only
    rw [if_pos (isKey_str _ name), if_pos (isKey_str _ name), Entries.find?_str,
      Entries.find?_str]
    refine together_pure (.made ?_)
    cases hfound : es.under name with
    | none => trivial
    | some x =>
      have hmem : x ∈ es.flatMap fun e => [e.1, e.2] :=
        List.mem_flatMap.mpr ⟨_, Entries.mem_of_under hfound,
          List.mem_cons_of_mem _ List.mem_cons_self⟩
      rcases Store.view_of_entries? hes with hc | hc
      · exact hmade _ hc _ hmem
      · exact hmade _ hc _ hmem
  | none =>
    dsimp only
    cases hxs : t₁.store.sequence? v with
    | some xs =>
      have hxs' : ∀ x ∈ xs, s.Made x := by
        intro x hx
        unfold Store.sequence? at hxs
        split at hxs
        · rename_i ys hc
          cases hxs
          exact hmade _ hc x hx
        · rename_i ys hc
          cases hxs
          exact hmade _ hc x hx
        · cases hxs
      dsimp only [position]
      unfold Action.ofExcept
      rw [pure_bind]
      cases (Text.readInteger name).toOption with
      | none => exact together_pure (.made trivial)
      | some i =>
        refine together_pure (.made ?_)
        cases hfound : (Slice.place? xs.length i).bind (xs[·]?) with
        | none => trivial
        | some x =>
          obtain ⟨n, -, hn⟩ := Option.bind_eq_some_iff.mp hfound
          exact hxs' x (List.mem_of_getElem? hn)
    | none =>
      split
      · rename_i hnone
        cases hnone
      · -- a sequence that can not be read fails in both states
        unfold position Action.ofExcept
        rw [pure_bind]
        cases (Text.readInteger name).toOption with
        | none => exact together_pure (.made trivial)
        | some i =>
          dsimp only
          split_ifs
          · exact together_pure (.made trivial)
          · exact together_throw _
      split_ifs
      · exact together_pure (.made trivial)
      · refine together_bind (together_attribute? h₁ h₂ hwhole hroot h name) ?_
        intro o o' u₁ u₂ _ _ _ ho
        refine together_pure ?_
        cases ho with
        | none => exact .made trivial
        | some h => exact h

omit h₁ h₂ in
/-- Written segments, followed from values that are alike. -/
theorem together_follow (names : List String) :
    ∀ {t₁ t₂ : State} {v w : Value}, s.Later t₁ → s.Later t₂ →
      s.Alike t₁.store t₂.store v w →
      Together t₁ t₂ (follow (names.map .str) v) (follow (names.map .str) w) s.Alike := by
  induction names with
  | nil => exact fun _ _ h => together_pure h
  | cons name names ih =>
    intro t₁ t₂ v w h₁ h₂ h
    rw [List.map_cons, follow, follow]
    refine together_bind (together_step h₁ h₂ hwhole hroot h name) ?_
    intro x y u₁ u₂ hu₁ hu₂ _ hxy
    have hrest := ih (h₁.trans hu₁) (h₂.trans hu₂) hxy
    cases hxy with
    | made hx =>
      cases x with
      | missing => exact together_pure (.made trivial)
      | _ => exact hrest
    | _ => exact hrest

/-- What a written path leads to, from a value that had been made, is alike in all later states. -/
theorem value_together {item : Value} (hitem : s.Made item) (path : String) :
    Together t₁ t₂ (value item (.str path)) (value item (.str path)) s.Alike := by
  rw [value_eq_follow]
  exact together_follow hwhole hroot (route path) h₁ h₂ (.made hitem)

end Path

end

/-- A value that is neither in the store nor numbered as one of a series, so that it is alike only
to itself. -/
def Value.IsConstant : Value → Prop
  | .ref _ | .method _ _ _ | .extension _ _ _ => False
  | _ => True

/-- A constant that is found at a path is found there in every later state. -/
theorem Path.value_later {s t u : State} {item v : Value} {path : String} (hwhole : s.Whole)
    (hroot : s.store.Rooted) (hitem : s.Made item) (hv : v.IsConstant)
    (hrun : (value item (.str path)).execute s = (.ok v, u)) (ht : s.Later t) :
    ∃ w, (value item (.str path)).execute t = (.ok v, w) ∧ t.Later w := by
  cases value_together (.refl s) ht hwhole hroot hitem path with
  | given hx hy _ hu₂ _ halike =>
    rw [hrun] at hx
    cases hx
    cases halike with
    | made => exact ⟨_, hy, hu₂⟩
    | _ => exact hv.elim
  | failed hx =>
    rw [hrun] at hx
    cases hx

end Recordset
