import Recordset.Proofs.Collection.Visit
import Recordset.Proofs.Extension.Follows
set_option autoImplicit false

/-!
# What a program does to extensions

Each thing that a program does with registries and collections, in the words of a history: making a
registry, registering a function, reserving names, making a collection and calling its methods.
What is refused leaves the state as it was.
-/

namespace Recordset

open Recordset.Action

namespace Registry

variable {s t : State} {a : Address} {name f : Value} {names : List String}

/-! ## Registries -/

theorem execute_read {r : Registry} (hr : s.store.cell? a = some (.registry r)) :
    (read a).execute s = (.ok r, s) := by
  unfold read
  rw [execute_bind_of_ok (execute_cell hr)]
  rfl

/-- A registry is read without a change, if there is one. -/
theorem execute_read_cases (s : State) (a : Address) :
    (∃ r, s.store.cell? a = some (.registry r) ∧ (read a).execute s = (.ok r, s)) ∨
      ∃ e, (read a).execute s = (.error e, s) := by
  cases hc : s.store.cell? a with
  | none =>
    refine .inr ⟨.fault .type, ?_⟩
    unfold read cell
    rw [execute_bind, execute_get_bind, hc]
    rfl
  | some c =>
    cases c with
    | registry r => exact .inl ⟨r, rfl, execute_read hc⟩
    | _ =>
      refine .inr ⟨.fault .attribute, ?_⟩
      unfold read
      rw [execute_bind_of_ok (execute_cell hc)]
      rfl

/-- A registry is made. -/
theorem execute_make (s : State) (parent : Option Address) (reserved : List String)
    (hparent : ∀ p, parent = some p → ∃ q, s.store.cell? p = some (.registry q)) :
    ∃ t, (make parent reserved).execute s = (.ok ⟨s.store.size⟩, t) ∧
      s.Happens [.made ⟨s.store.size⟩ parent] t :=
  ⟨_, rfl, .alloc (.registry reserved hparent)⟩

/-- A function is registered, or the registration is refused. -/
theorem execute_register {r : Except Error Unit} (h : (register a name f).execute s = (r, t)) :
    (∃ e, r = .error e ∧ t = s) ∨
      ∃ key, r = .ok () ∧ name = .str key ∧ s.Happens [.registered a key f] t := by
  have hinvalid : ∀ {shown : Except Error String},
      (Action.ofExcept shown >>= fun text =>
        (Action.refuse (.invalidName text) : Action Unit)).execute s = (r, t) →
          ∃ e, r = .error e ∧ t = s := by
    intro shown hrun
    cases shown with
    | ok text =>
      cases hrun
      exact ⟨_, rfl, rfl⟩
    | error e =>
      cases hrun
      exact ⟨_, rfl, rfl⟩
  unfold register at h
  rw [execute_get_bind] at h
  dsimp only at h
  split at h
  · rename_i key
    split at h
    · exact .inl (hinvalid h)
    · rename_i hname
      split at h
      · cases h
        exact .inl ⟨_, rfl, rfl⟩
      · rename_i hf
        obtain hchain | hendless := execute_alongChain_cases s a _
        rotate_left
        · rw [hendless] at h
          cases h
          exact .inl ⟨_, rfl, rfl⟩
        rw [hchain] at h
        split at h
        · cases h
          exact .inl ⟨_, rfl, rfl⟩
        · rename_i hfree
          simp only [Bool.not_eq_true', Bool.not_eq_false] at hname hf
          simp only [List.contains_iff_mem] at hfree
          rcases execute_read_cases s a with ⟨q, hq, hread⟩ | ⟨e, hread⟩
          · rw [execute_bind_of_ok hread] at h
            split at h
            · -- the warning of a redefinition is no part of the store
              cases h
              have hwarned : s.Happens [] { s with
                  warnings := ("Macro " ++ key ++ " redefined") :: s.warnings } := .idle rfl
              exact .inr ⟨key, rfl, rfl, hwarned.trans (.write hq (.registered q hname hf hfree))⟩
            · cases h
              exact .inr ⟨key, rfl, rfl, .write hq (.registered q hname hf hfree)⟩
          · rw [execute_bind_of_error hread] at h
            cases h
            exact .inl ⟨e, rfl, rfl⟩
  · exact .inl (hinvalid h)

theorem sortNames_eq_nil_iff : sortNames names = [] ↔ names = [] := by
  unfold sortNames
  rw [← List.length_eq_zero_iff, List.length_mergeSort, List.length_eq_zero_iff]
  cases names with
  | nil => simp
  | cons name names => simp [List.eraseDups_cons]

/-- Names are reserved, or the reservation is refused. -/
theorem execute_reserveAll {r : Except Error Unit}
    (h : (reserveAll a names).execute s = (r, t)) :
    (∃ e, r = .error e ∧ t = s) ∨
      (r = .ok () ∧ s.Happens [.reserved a names] t ∧ ∃ q, t.store.cell? a = some (.registry q) ∧
        ∀ name ∈ names, name ∈ q.reserved ∧ q.get? name = none) := by
  unfold reserveAll at h
  obtain hchain | hendless := execute_alongChain_cases s a _
  rotate_left
  · rw [hendless] at h
    cases h
    exact .inl ⟨_, rfl, rfl⟩
  rw [hchain, execute_get_bind] at h
  dsimp only at h
  split at h
  · rename_i hclashes
    rw [List.isEmpty_iff, sortNames_eq_nil_iff, List.filter_eq_nil_iff] at hclashes
    simp only [List.contains_iff_mem] at hclashes
    rcases execute_read_cases s a with ⟨q, hq, hread⟩ | ⟨e, hread⟩
    · rw [execute_bind_of_ok hread, execute_write] at h
      cases h
      refine .inr ⟨rfl, .write hq (.reserved q hclashes), q.reserve names,
        Store.cell?_write_of_lt _ (Store.index_lt_of_cell? hq), fun name hname => ?_⟩
      refine ⟨mem_reserved_reserve.mpr (.inr hname), ?_⟩
      rw [get?_reserve]
      exact Option.eq_none_iff_forall_ne_some.mpr fun f hf =>
        hclashes name hname (mem_names_of_get? hq hf)
    · rw [execute_bind_of_error hread] at h
      cases h
      exact .inl ⟨e, rfl, rfl⟩
  · cases h
    exact .inl ⟨_, rfl, rfl⟩

end Registry

/-- The methods that can do more than derive collections from the one that they are called on. -/
def Method.roaming : List Method := .update :: Method.reaching

/-! ## Making a collection -/

namespace Collection

variable {s t : State} {h : History} {given : Option Address}

/-- What happens is nothing that a lookup could see. -/
theorem happens_of_obeys {α : Type} {x : Action α} {r : Except Error α}
    (hx : Obeys (State.Brings fun _ => False) x) (hrun : x.execute s = (r, t)) : s.Happens [] t :=
  (hx.of_execute hrun).happens

/-- A new collection gets a registry of its own, unless the given one can not guard the names of
methods. -/
theorem execute_newRegistry {r : Except Error Address} (hfollows : s.Follows h)
    (hrun : (newRegistry given).execute s = (r, t)) :
    (∃ e, r = .error e ∧ t = s) ∨
      ∃ registry, r = .ok registry ∧ s.store.size ≤ registry.index ∧ t.Grants registry given ∧
        s.Happens (History.founding registry given) t := by
  have hguards : ∀ parent : Option Address, Registry.Guards { parent, reserved := builtinNames } :=
    fun parent name hname => ⟨hname, rfl⟩
  unfold newRegistry at hrun
  cases given with
  | none =>
    obtain ⟨q, hq, -⟩ := hfollows.shared
    obtain ⟨u, hmake, hmade⟩ := Registry.execute_make s (some State.sharedRegistry) builtinNames
      fun p hp => by
        cases hp
        exact ⟨q, hq⟩
    dsimp only at hrun
    rw [hmake] at hrun
    cases hrun
    refine .inr ⟨_, rfl, Nat.le_refl _, ⟨⟨_, ?_, rfl, hguards _⟩, fun g hg => by cases hg⟩, hmade⟩
    cases hmake
    exact s.store.cell?_alloc _
  | some g =>
    rcases execute_bind_cases hrun with ⟨e, rfl, hreserve⟩ | ⟨x, u, hreserve, hrun⟩
    · rcases Registry.execute_reserveAll hreserve with ⟨e', -, rfl⟩ | ⟨hok, -⟩
      · exact .inl ⟨e, rfl, rfl⟩
      · cases hok
    · rcases Registry.execute_reserveAll hreserve with ⟨e, herror, -⟩ | ⟨-, hreserved, p, hp, hfree⟩
      · cases herror
      · obtain ⟨u', hmake, hmade⟩ := Registry.execute_make u (some g) builtinNames
          fun b hb => by
            cases hb
            exact ⟨p, hp⟩
        rw [hmake] at hrun
        cases hrun
        have hsize : s.store.size ≤ u.store.size := hreserved.evolves.size_le
        have hgiven := hmade.carries.registry hp
        refine .inr ⟨_, rfl, hsize, ⟨⟨_, ?_, rfl, hguards _⟩, fun b hb => ?_⟩,
          hreserved.trans hmade⟩
        · cases hmake
          exact u.store.cell?_alloc _
        · cases hb
          obtain ⟨p', hp', -, hguards'⟩ := hgiven
          exact ⟨p', hp', hguards' hfree⟩

/-- A registry that is new belongs to no collection, since no collection has been made with it. -/
theorem registry_ne_of_new {registry : Address} (hfollows : s.Follows h)
    (hnew : s.store.size ≤ registry.index)
    (hst : s.Happens (History.founding registry given) t) {b : Address} {d : Collection}
    (hd : t.store.cell? b = some (.collection d)) : d.registry ≠ registry := by
  obtain ⟨-, c, given', -, hconstructed⟩ := (hst.follows hfollows).collection hd
  have hold : Event.constructed c d.registry given' ∈ h := by
    simpa [History.founding] using hconstructed
  obtain ⟨-, q, hq, -⟩ := hfollows.events _ hold
  rintro rfl
  have hlt := Store.index_lt_of_cell? hq
  omega

/-- A collection is made together with a registry of its own.  Where that fails, no collection is
made and nothing is registered. -/
theorem execute_construct {items validators : Value} {policy : Option Address}
    {r : Except Error Address} (hfollows : s.Follows h)
    (hrun : (construct items validators policy given).execute s = (r, t)) :
    (∃ e k, r = .error e ∧ s.Happens k t ∧
      (k = [] ∨ ∃ registry, k = History.founding registry given)) ∨
      ∃ c registry, r = .ok c ∧
        s.Happens (.constructed c registry given :: History.founding registry given) t := by
  unfold construct at hrun
  rcases execute_bind_cases hrun with ⟨e, rfl, hitems⟩ | ⟨xs, s₁, hitems, hrun⟩
  · exact .inl ⟨e, [], rfl, happens_of_obeys (obeys_initialItems items) hitems, .inl rfl⟩
  have h₁ := happens_of_obeys (obeys_initialItems items) hitems
  rcases execute_bind_cases hrun with ⟨e, rfl, hcopy⟩ | ⟨es, s₂, hcopy, hrun⟩
  · exact .inl ⟨e, [], rfl, h₁.trans (happens_of_obeys (obeys_copyValidators validators) hcopy),
      .inl rfl⟩
  have h₂ := h₁.trans (happens_of_obeys (obeys_copyValidators validators) hcopy)
  have hfollows₂ : s₂.Follows h := h₂.follows hfollows
  rcases execute_bind_cases hrun with ⟨e, rfl, hregistry⟩ | ⟨registry, s₃, hregistry, hrun⟩
  · rcases execute_newRegistry hfollows₂ hregistry with ⟨e', -, rfl⟩ | ⟨_, hok, -⟩
    · exact .inl ⟨e, [], rfl, h₂, .inl rfl⟩
    · cases hok
  rcases execute_newRegistry hfollows₂ hregistry with ⟨e, herror, -⟩ | ⟨_, hok, hnew, hgrants, h₃⟩
  · cases herror
  cases hok
  have hgenerator : ∀ p, Obeys (State.Brings fun _ => False)
      (Policy.read p >>= fun q => q.newGenerator) := fun p =>
    obeys_bind (Policy.obeys_read p) fun q => Policy.obeys_newGenerator q
  rw [← bind_assoc] at hrun
  rcases execute_bind_cases hrun with ⟨e, rfl, hfailed⟩ | ⟨generator, s₄, hmade, hrun⟩
  · refine .inl ⟨e, _, rfl, h₂.trans (h₃.trans (happens_of_obeys (hgenerator _) hfailed)),
      .inr ⟨registry, ?_⟩⟩
    simp
  have h₄ := happens_of_obeys (hgenerator _) hmade
  have h₅ : s₄.Happens [] { s₄ with store := (s₄.store.alloc (.list xs)).2 } := .alloc (.plain rfl)
  have h₄₅ : s₂.Happens (History.founding registry given)
      { s₄ with store := (s₄.store.alloc (.list xs)).2 } := h₃.trans (h₄.trans h₅)
  have hgrants₅ := hgrants.carry (h₄.trans h₅).carries
  let c : Collection := {
    list := ⟨s₄.store.size⟩
    validators := es
    policy := policy.getD State.defaultPolicy
    registry := registry
    generator := generator }
  have hmakes : State.Makes { s₄ with store := (s₄.store.alloc (.list xs)).2 } (.collection c) _ :=
    .constructed rfl hgrants₅ (registry_ne_of_new hfollows₂ hnew h₄₅)
  have h₆ := h₂.trans (h₄₅.trans (.alloc hmakes))
  simp only [List.append_nil, List.singleton_append] at h₆
  cases hrun
  exact .inr ⟨_, registry, rfl, h₆⟩

/-! ## Calling methods -/

variable {a : Address} {caller : Caller}

/-- A function is registered for a collection in its registry, or the registration is refused. -/
theorem execute_extend {c : Collection} {name f : Value} {r : Except Error Value}
    (hc : s.store.cell? a = some (.collection c)) (hrun : (extend a name f).execute s = (r, t)) :
    (∃ e, r = .error e ∧ t = s) ∨
      ∃ key, r = .ok (.ref a) ∧ name = .str key ∧ s.Happens [.registered c.registry key f] t := by
  unfold extend at hrun
  rw [execute_bind_of_ok (execute_read hc)] at hrun
  rcases execute_bind_cases hrun with ⟨e, rfl, hregister⟩ | ⟨_, u, hregister, hrun⟩
  · rcases Registry.execute_register hregister with ⟨_, -, rfl⟩ | ⟨_, hok, -⟩
    · exact .inl ⟨e, rfl, rfl⟩
    · cases hok
  · cases hrun
    rcases Registry.execute_register hregister with ⟨_, herror, -⟩ | ⟨key, -, hkey, hhappens⟩
    · cases herror
    · exact .inr ⟨key, rfl, hkey, hhappens⟩

/-- All other methods only derive collections from the one that they are called on, when calls do no
more. -/
theorem obeys_perform_of_near {call : Call} (hnear : call.method ∉ Method.roaming)
    (hcaller : ObeysCaller (State.Brings (Event.DerivesFrom a)) caller) :
    Obeys (State.Brings (Event.DerivesFrom a)) (perform caller a call) := by
  simp only [Method.roaming, List.mem_cons, not_or] at hnear
  by_cases hchanging : call.method ∈ Method.changing
  · exact obeys_perform_of_changing hcaller hchanging hnear.1
  · by_cases hordering : call.method ∈ Method.ordering
    · exact obeys_perform_of_ordering hcaller hordering
    · exact obeys_perform_of_deriving hcaller hchanging hordering (by simpa using hnear.2)

end Collection

open Classical in
/-- Calls a function unless the call breaks a relation, which is refused. -/
noncomputable def Caller.within (R : State → State → Prop) (caller : Caller) : Caller :=
  fun f args => do
    let s ← get
    if R s ((caller f args).execute s).2 then caller f args else Action.fault .runtime

theorem Caller.obeys_within {R : State → State → Prop} [State.Base R] (caller : Caller) :
    ObeysCaller R (caller.within R) := by
  intro f args s
  unfold Caller.within
  refine obeysFrom_get_bind ?_
  split
  · assumption
  · exact obeys_fault _ s

/-- No call breaks a relation: an action comes to the same when the calls that do are refused. -/
def State.CallsWithin (R : State → State → Prop) (s : State) (caller : Caller)
    (x : Caller → Action Value) : Prop := (x caller).execute s = (x (caller.within R)).execute s

/-- An action that obeys when its calls do obeys where no call breaks the relation. -/
theorem State.CallsWithin.related {R : State → State → Prop} [State.Base R] {s : State}
    {caller : Caller} {x : Caller → Action Value} (hcalls : s.CallsWithin R caller x)
    (hx : ∀ f, ObeysCaller R f → Obeys R (x f)) : R s ((x caller).execute s).2 := by
  rw [hcalls]
  exact hx _ caller.obeys_within s

end Recordset
