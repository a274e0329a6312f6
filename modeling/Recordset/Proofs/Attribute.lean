import Mathlib.Tactic.SplitIfs
import Recordset.Proofs.Extension.Chain
set_option autoImplicit false

/-!
# Looking attributes up

Looking an attribute of a value up finds it, or finds that the value does not have it.  There are
two ways in which it fails (`Store.AttributeFails`).  An attribute that is computed can fail to be;
and an extension, or a reserved name, can be looked for along a chain of registries that has no end.
The state is then as it was.

`Action.execute_attribute?_error_iff` is the main statement.
-/

namespace Recordset

/-! ## Attributes of a collection -/

namespace Collection

variable {name : String}

theorem attribute_of_not_builtin (hname : name ∉ builtinNames) : Attribute.ofName? name = none := by
  refine List.find?_eq_none.mpr fun m hm hkey => hname ?_
  exact List.mem_append_right _ (List.mem_map.mpr ⟨m, hm, by simpa using hkey⟩)

theorem method_of_not_builtin (hname : name ∉ builtinNames) : Method.ofName? name = none := by
  refine List.find?_eq_none.mpr fun m hm hkey => hname ?_
  exact List.mem_append_left _ (List.mem_map.mpr ⟨m, hm, by simpa using hkey⟩)

theorem not_builtin_iff : name ∉ builtinNames ↔
    Method.ofName? name = none ∧ Attribute.ofName? name = none := by
  refine ⟨fun h => ⟨method_of_not_builtin h, attribute_of_not_builtin h⟩, fun ⟨hm, ha⟩ hname => ?_⟩
  rcases List.mem_append.mp hname with h | h
  · obtain ⟨m, hmem, hm'⟩ := List.mem_map.mp h
    exact List.find?_eq_none.mp hm m hmem (by simpa using hm')
  · obtain ⟨m, hmem, hm'⟩ := List.mem_map.mp h
    exact List.find?_eq_none.mp ha m hmem (by simpa using hm')

/-- A collection looks a name up in its registry, which does not have it, and there is no end to
the chain of those that this one extends. -/
structure SeeksOn (s : Store) (c : Collection) (name : String) : Prop where
  notBuiltin : name ∉ builtinNames
  unset : c.fields.lookup name = none
  visible : name.startsWith "_" = false
  absent : Registry.lookup s c.registry name = none
  endless : Action.isBounded s c.registry = false

variable {s : State} {a : Address} {c : Collection}

/-- A collection has the attributes of its kind where none has been set on it. -/
theorem execute_attribute? (hc : s.store.cell? a = some (.collection c))
    (hmark : s.store.mark? (.ref a) name = none) :
    (Action.attribute? (.ref a) name).execute s =
      (Action.collectionAttribute a c name).execute s := by
  unfold Action.attribute?
  rw [Action.execute_get_bind, hmark]
  unfold Action.ownAttribute
  simp only [Value.number?]
  rw [Action.execute_get_bind, hc]

/-- What a collection shows under a name that is neither of a method nor of an attribute, unless a
field has been set: what it keeps for itself, or an extension. -/
theorem execute_collectionAttribute (hname : name ∉ builtinNames)
    (hfield : c.fields.lookup name = none) :
    (Action.collectionAttribute a c name).execute s =
      if name.startsWith "_" then (Action.internalAttribute c name).execute s
      else match Registry.lookup s.store c.registry name with
        | some f =>
          (.ok (some (.extension s.serial f (.ref a))), { s with serial := s.serial + 1 })
        | none => (Action.alongChain c.registry (pure (none : Option Value))).execute s := by
  have hshared : name ≠ Attribute.name .sharedExtensions := by
    rintro rfl
    exact hname (by decide)
  unfold Action.collectionAttribute
  rw [attribute_of_not_builtin hname, hfield]
  dsimp only
  rw [if_neg hshared, method_of_not_builtin hname]
  simp only [Option.isSome_none, Bool.false_eq_true, if_false]
  split
  · rfl
  · rw [Action.execute_get_bind, Registry.registered?_eq_lookup]
    cases Registry.lookup s.store c.registry name <;> rfl

theorem execute_collectionAttribute_of_seeksOn (h : SeeksOn s.store c name) :
    (Action.collectionAttribute a c name).execute s = (.error (.fault .recursion), s) := by
  rw [execute_collectionAttribute h.notBuiltin h.unset, h.visible, h.absent]
  exact Action.execute_alongChain_of_endless _ h.endless

end Collection

/-! ## Actions that never fail -/

namespace Action

variable {α β : Type}

/-- An action gives a result from every state. -/
def Succeeds (x : Action α) : Prop := ∀ s, ∃ a t, x.execute s = (.ok a, t)

theorem succeeds_pure (a : α) : Succeeds (pure a : Action α) := fun s => ⟨a, s, rfl⟩

theorem succeeds_bind {x : Action α} {f : α → Action β} (hx : Succeeds x)
    (hf : ∀ a, Succeeds (f a)) : Succeeds (x >>= f) := by
  intro s
  obtain ⟨a, t, h⟩ := hx s
  rw [execute_bind_of_ok h]
  exact hf a t

theorem succeeds_make (c : Cell) : Succeeds (make c) := fun _ => ⟨_, _, rfl⟩

theorem succeeds_serial : Succeeds serial := fun _ => ⟨_, _, rfl⟩

theorem succeeds_methodOf (a : Address) (name : String) : Succeeds (methodOf a name) :=
  succeeds_bind succeeds_serial fun _ => succeeds_pure _

theorem succeeds_patternAttribute (p : Pattern) (name : String) :
    Succeeds (patternAttribute p name) := by
  unfold patternAttribute
  split
  · exact succeeds_pure _
  · exact succeeds_pure _
  · exact succeeds_pure _
  · exact succeeds_bind (succeeds_make _) fun _ => succeeds_pure _
  · exact succeeds_pure _

theorem succeeds_internalAttribute (c : Collection) (name : String) :
    Succeeds (internalAttribute c name) := by
  unfold internalAttribute
  split <;> exact succeeds_pure _

theorem succeeds_builderAttribute (a : Address) (b : Builder) (name : String) :
    Succeeds (builderAttribute a b name) := by
  unfold builderAttribute
  split
  · exact succeeds_pure _
  · exact succeeds_pure _
  · exact succeeds_pure _
  · split_ifs
    · exact succeeds_methodOf a name
    · exact succeeds_pure _

theorem succeeds_extensionAttribute (v : Value) (name : String) :
    Succeeds (extensionAttribute v name) := by
  unfold extensionAttribute
  dsimp only
  split
  · exact succeeds_pure _
  · exact succeeds_bind (succeeds_make _) fun _ => succeeds_pure _
  · exact succeeds_bind (succeeds_make _) fun _ => succeeds_pure _
  · exact succeeds_pure _

/-- A collection has an attribute or does not have it, unless it seeks it without end. -/
theorem collectionAttribute_ok {s : State} {c : Collection} {name : String} (a : Address)
    (h : ¬ Collection.SeeksOn s.store c name) :
    ∃ o t, (collectionAttribute a c name).execute s = (.ok o, t) := by
  by_cases hname : name ∈ builtinNames
  · -- the names of methods and attributes are never looked up in a registry
    unfold collectionAttribute
    split
    · exact ⟨_, _, rfl⟩
    · exact ⟨_, _, rfl⟩
    · exact ⟨_, _, rfl⟩
    · exact ⟨_, _, rfl⟩
    · rename_i hlength hextensions hpolicy hvalidators
      split
      · exact ⟨_, _, rfl⟩
      · split_ifs with hshared hmethod
        · exact ⟨_, _, rfl⟩
        · exact succeeds_methodOf a name s
        · exact succeeds_internalAttribute c name s
        · refine absurd hname (Collection.not_builtin_iff.mpr ⟨by simpa using hmethod, ?_⟩)
          cases hattribute : Attribute.ofName? name with
          | none => rfl
          | some m =>
            have hm : m.name = name := by simpa using List.find?_some hattribute
            cases m with
            | length => exact absurd hattribute hlength
            | extensions => exact absurd hattribute hextensions
            | policy => exact absurd hattribute hpolicy
            | validators => exact absurd hattribute hvalidators
            | sharedExtensions => exact absurd hm.symm hshared
  · cases hfield : c.fields.lookup name with
    | some v =>
      unfold collectionAttribute
      rw [Collection.attribute_of_not_builtin hname, hfield]
      exact ⟨_, _, rfl⟩
    | none =>
      rw [Collection.execute_collectionAttribute hname hfield]
      split_ifs with hvisible
      · exact succeeds_internalAttribute c name s
      · cases habsent : Registry.lookup s.store c.registry name with
        | some f => exact ⟨_, _, rfl⟩
        | none =>
          cases hchain : isBounded s.store c.registry with
          | true => exact ⟨none, s, execute_alongChain_of_bounded _ hchain⟩
          | false =>
            exact absurd ⟨hname, hfield, by simpa using hvisible, habsent, hchain⟩ h

/-- A registry has an attribute or does not have it, unless it reads the names that a chain without
an end reserves. -/
theorem registryAttribute_ok {s : State} {a : Address} {name : String} (r : Registry)
    (h : ¬ (name = "reserved" ∧ isBounded s.store a = false)) :
    ∃ o t, (registryAttribute a r name).execute s = (.ok o, t) := by
  unfold registryAttribute
  split_ifs with hparent hreserved
  · exact ⟨_, _, rfl⟩
  · have hchain : isBounded s.store a = true := by
      cases hchain : isBounded s.store a with
      | true => rfl
      | false => exact absurd ⟨hreserved, hchain⟩ h
    rw [execute_alongChain_of_bounded _ hchain]
    exact ⟨_, _, rfl⟩
  · exact succeeds_methodOf a name s
  · exact ⟨_, _, rfl⟩

end Action

/-! ## Lookups that fail -/

namespace Store

/-- Looking an attribute up fails. -/
inductive AttributeFails (s : Store) : Value → String → Error → Prop where
  /-- the attribute is a computed one -/
  | computed {a : Address} {kind : CustomKind} {fields : List (String × Value)} {name : String}
    {e : Error} (hcell : s.cell? a = some (.custom kind fields))
    (hmark : s.mark? (.ref a) name = none) (hfails : kind.failure? name = some e) :
    AttributeFails s (.ref a) name e
  /-- an extension is looked for without end -/
  | extension {a : Address} {c : Collection} {name : String}
    (hcell : s.cell? a = some (.collection c)) (hmark : s.mark? (.ref a) name = none)
    (hseeks : c.SeeksOn s name) : AttributeFails s (.ref a) name (.fault .recursion)
  /-- the names that a registry reserves are read without end -/
  | reserved {a : Address} {r : Registry} (hcell : s.cell? a = some (.registry r))
    (hmark : s.mark? (.ref a) "reserved" = none) (hendless : Action.isBounded s a = false) :
    AttributeFails s (.ref a) "reserved" (.fault .recursion)

end Store

namespace Action

variable {s : State} {v : Value} {name : String} {e : Error}

theorem execute_attribute?_of_fails (h : s.store.AttributeFails v name e) :
    (attribute? v name).execute s = (.error e, s) := by
  cases h with
  | computed hcell hmark hfails =>
    unfold attribute?
    rw [execute_get_bind, hmark]
    unfold ownAttribute
    dsimp only [Value.number?]
    rw [execute_get_bind, hcell]
    dsimp only
    rw [hfails]
    rfl
  | extension hcell hmark hseeks =>
    rw [Collection.execute_attribute? hcell hmark]
    exact Collection.execute_collectionAttribute_of_seeksOn hseeks
  | reserved hcell hmark hendless =>
    unfold attribute?
    rw [execute_get_bind, hmark]
    unfold ownAttribute
    dsimp only [Value.number?]
    rw [execute_get_bind, hcell]
    exact execute_alongChain_of_endless _ hendless

/-- A lookup comes to an attribute, or to none, unless it fails. -/
theorem attribute?_ok_or_fails (s : State) (v : Value) (name : String) :
    (∃ o t, (attribute? v name).execute s = (.ok o, t)) ∨
      ∃ e, s.store.AttributeFails v name e := by
  unfold attribute?
  rw [execute_get_bind]
  cases hmark : s.store.mark? v name with
  | some x => exact .inl ⟨_, _, rfl⟩
  | none =>
    dsimp only
    unfold ownAttribute
    split
    · exact .inl ⟨_, _, rfl⟩
    · exact .inl (succeeds_patternAttribute _ name s)
    · exact .inl (succeeds_extensionAttribute _ name s)
    · rename_i a _
      rw [execute_get_bind]
      split
      · exact .inl ⟨_, _, rfl⟩
      · exact .inl ⟨_, _, rfl⟩
      · rename_i kind fs hcell
        cases hfails : kind.failure? name with
        | some e => exact .inr ⟨e, .computed hcell hmark hfails⟩
        | none => exact .inl ⟨_, _, rfl⟩
      · rename_i c hcell
        by_cases hseeks : c.SeeksOn s.store name
        · exact .inr ⟨_, .extension hcell hmark hseeks⟩
        · exact .inl (collectionAttribute_ok a hseeks)
      · exact .inl ⟨_, _, rfl⟩
      · exact .inl (succeeds_builderAttribute _ _ name s)
      · rename_i r hcell
        by_cases hendless : name = "reserved" ∧ isBounded s.store a = false
        · obtain ⟨rfl, hendless⟩ := hendless
          exact .inr ⟨_, .reserved hcell hmark hendless⟩
        · exact .inl (registryAttribute_ok r hendless)
      · exact .inl ⟨_, _, rfl⟩
      · exact .inl ⟨_, _, rfl⟩
    · exact .inl ⟨_, _, rfl⟩

/-! ## Main statement -/

/-- How a lookup fails, which leaves the state as it was. -/
theorem execute_attribute?_error_iff {t : State} :
    (attribute? v name).execute s = (.error e, t) ↔ s.store.AttributeFails v name e ∧ t = s := by
  constructor
  · intro hrun
    rcases attribute?_ok_or_fails s v name with ⟨o, u, hok⟩ | ⟨f, hfails⟩
    · rw [hok] at hrun
      cases hrun
    · have hfailed := execute_attribute?_of_fails hfails
      rw [hrun] at hfailed
      cases hfailed
      exact ⟨hfails, rfl⟩
  · rintro ⟨hfails, rfl⟩
    exact execute_attribute?_of_fails hfails

end Action

end Recordset
