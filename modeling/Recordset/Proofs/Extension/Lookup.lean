import Recordset.Proofs.Attribute
import Recordset.Proofs.Extension.Steps
import Recordset.Script.Eval
set_option autoImplicit false

/-!
# Extensions are looked up as their history tells

In every state that comes about from the start of a session, a name that is not a collection's own
is looked up in the registry of the collection's family and along its chain, and what is found is
what has been registered last in the nearest registry that has it (`State.KeepsExtensions`).

`State.Happens.keepsExtensions` is the main statement.
-/

namespace Recordset

open Recordset.Action

/-- The failure of a value to have an attribute. -/
def Error.lacksAttribute : Error → Bool
  | noAttribute _ => true
  | fault .attribute => true
  | _ => false

namespace Collection

/-- The names of what a collection keeps for itself and of what helps its methods. -/
def privateNames : List String :=
  ["_items", "_validators", "_policy", "_macros", "_random", "_derive", "_compile", "_aggregate",
    "_is_protocol"]

/-- A collection answers to a name by itself: it is the name of a method or an attribute, a private
one, or a special name between double underscores. -/
def IsOwnName (name : String) : Prop :=
  name ∈ builtinNames ∨ name ∈ privateNames ∨ (name.startsWith "__" && name.endsWith "__") = true

instance (name : String) : Decidable (IsOwnName name) := inferInstanceAs (Decidable (_ ∨ _ ∨ _))

end Collection

/-! ## Lookups along a chain -/

theorem Registry.exists_of_lookup {s : Store} {a : Address} {name : String} {f : Value}
    (hf : lookup s a name = some f) : ∃ r, s.cell? a = some (.registry r) := by
  unfold lookup chain Store.depth at hf
  rw [chainAt] at hf
  split at hf
  · rename_i r hr
    exact ⟨r, hr⟩
  · cases hf

namespace State

variable {s t : State} {h k : History} {a b : Address} {name : String} {f : Value}

/-- A lookup finds what the history tells. -/
theorem Follows.lookup_eq_some_iff (hfollows : s.Follows h) :
    Registry.lookup s.store a name = some f ↔ h.Finds a name f := by
  constructor
  · -- by induction on the address: a registry has been made after the one that it extends
    intro hf
    obtain ⟨i⟩ := a
    induction i using Nat.strongRecOn with
    | ind i ih =>
      obtain ⟨r, hr⟩ := Registry.exists_of_lookup hf
      rw [Registry.lookup_eq hfollows.rooted hr, hfollows.table hr] at hf
      cases hlatest : h.latest? ⟨i⟩ name with
      | some g =>
        rw [hlatest, Option.some_or] at hf
        cases hf
        exact .here hlatest
      | none =>
        rw [hlatest, Option.none_or] at hf
        obtain ⟨p, hparent, hp⟩ := Option.bind_eq_some_iff.mp hf
        have hmade : Event.made ⟨i⟩ (some p) ∈ h := by
          rcases hfollows.registry hr with hshared | hmade
          · obtain ⟨q, hq, hnone⟩ := hfollows.shared
            rw [← hshared, hr] at hq
            cases hq
            rw [hparent] at hnone
            cases hnone
          · exact hparent ▸ hmade
        exact .above hlatest hmade (ih p.index (hfollows.rooted hr hparent) hp)
  · intro hfinds
    induction hfinds with
    | here hlatest =>
      obtain ⟨-, r, hr⟩ := hfollows.events _ (History.registered_of_latest? hlatest)
      rw [Registry.lookup_eq hfollows.rooted hr, hfollows.table hr, hlatest, Option.some_or]
    | above hnone hmade _ ih =>
      obtain ⟨r, hr, hparent⟩ := hfollows.events _ hmade
      rw [Registry.lookup_eq hfollows.rooted hr, hfollows.table hr, hnone, hparent]
      exact ih

end State

namespace History

/-- What is found has been registered. -/
theorem Finds.registered {h : History} {a : Address} {name : String} {f : Value}
    (hfinds : h.Finds a name f) : ∃ b, Event.registered b name f ∈ h := by
  induction hfinds with
  | here hlatest => exact ⟨_, registered_of_latest? hlatest⟩
  | above _ _ _ ih => exact ih

/-- What is registered in a registry is found from no other one, unless that has it in its chain. -/
theorem finds_registered_iff {h : History} {a b : Address} {key name : String} {f g : Value}
    (happart : ¬h.InChain a b) :
    Finds (.registered a key f :: h) b name g ↔ h.Finds b name g := by
  have hlatest : ∀ {q : Address} {name : String}, ¬h.InChain a q →
      latest? (.registered a key f :: h) q name = h.latest? q name := by
    intro q name hq
    have hother : a ≠ q := by
      rintro rfl
      exact hq .here
    simp [Event.registration?, hother]
  constructor
  · intro hfinds
    induction hfinds with
    | here hf => exact .here ((hlatest happart).symm.trans hf)
    | @above q p name g hnone hmade _ ih =>
      have hold : Event.made q (some p) ∈ h := by simpa using hmade
      have hfurther : ¬h.InChain a p := fun hchain => happart (.above hold hchain)
      exact .above ((hlatest happart).symm.trans hnone) hold (ih hfurther)
  · intro hfinds
    induction hfinds with
    | here hf => exact .here ((hlatest happart).trans hf)
    | above hnone hmade _ ih =>
      have hfurther := fun hchain => happart (.above hmade hchain)
      exact .above ((hlatest happart).trans hnone) (List.mem_cons_of_mem _ hmade) (ih hfurther)

end History

/-! ## Attributes of a collection -/

namespace Collection

variable {name : String}

theorem internalAttribute_of_not_private (c : Collection) (hname : name ∉ privateNames) :
    Action.internalAttribute c name = pure none := by
  unfold Action.internalAttribute
  split
  · exact absurd (by decide) hname
  · exact absurd (by decide) hname
  · exact absurd (by decide) hname
  · exact absurd (by decide) hname
  · exact absurd (by decide) hname
  · rfl

/-- No extension has a name that starts with an underscore. -/
theorem not_isExtensionName_of_underscore (hname : name.startsWith "_" = true) :
    Registry.isExtensionName name = false := by
  obtain ⟨rest, hrest⟩ := String.startsWith_string_iff.mp hname
  have hhead : name.toList.head? = some '_' := by
    rw [← hrest]
    rfl
  simp [Registry.isExtensionName, hhead]

end Collection

namespace State

variable {s : State} {h : History} {a : Address} {c : Collection} {name : String}

/-- A name that is not a collection's own is looked up in its registry. -/
theorem Follows.execute_attribute? (hfollows : s.Follows h)
    (hc : s.store.cell? a = some (.collection c)) (hname : ¬Collection.IsOwnName name) :
    (Action.attribute? (.ref a) name).execute s =
      match Registry.lookup s.store c.registry name with
      | some f => (.ok (some (.extension s.serial f (.ref a))), { s with serial := s.serial + 1 })
      | none => (.ok none, s) := by
  have hprivate : name ∉ Collection.privateNames := fun h => hname (.inr (.inl h))
  have hmark : s.store.mark? (.ref a) name = none := by
    simp [Store.mark?, hfollows.unmarked]
  have hfield : c.fields.lookup name = none := by
    rw [(hfollows.collection hc).1]
    rfl
  rw [Collection.execute_attribute? hc hmark,
    Collection.execute_collectionAttribute (fun h => hname (.inl h)) hfield]
  split
  · -- a name that starts with an underscore can not have been registered
    rename_i hunderscore
    rw [Collection.internalAttribute_of_not_private c hprivate]
    cases hlookup : Registry.lookup s.store c.registry name with
    | none => rfl
    | some f =>
      obtain ⟨b, hregistered⟩ := (hfollows.lookup_eq_some_iff.mp hlookup).registered
      obtain ⟨⟨hvalid, -⟩, -⟩ := hfollows.events _ hregistered
      rw [Collection.not_isExtensionName_of_underscore hunderscore] at hvalid
      cases hvalid
  · rw [execute_alongChain_of_bounded _ (isBounded_of_rooted hfollows.rooted c.registry)]
    rfl

/-- The failure to look a name up leaves the state as it is. -/
theorem execute_lacking (s : State) (a : Address) (name : String) :
    ∃ e, e.lacksAttribute = true ∧
      (Action.lacking (.ref a) name : Action Value).execute s = (.error e, s) := by
  unfold Action.lacking
  rw [execute_get_bind]
  split
  · exact ⟨.noAttribute name, rfl, rfl⟩
  · exact ⟨.fault .attribute, rfl, rfl⟩

theorem Follows.execute_attributeOf_some (hfollows : s.Follows h)
    (hc : s.store.cell? a = some (.collection c)) (hname : ¬Collection.IsOwnName name) {f : Value}
    (hf : Registry.lookup s.store c.registry name = some f) :
    (Action.attributeOf (.ref a) name).execute s =
      (.ok (.extension s.serial f (.ref a)), { s with serial := s.serial + 1 }) := by
  have hattribute := hfollows.execute_attribute? hc hname
  rw [hf] at hattribute
  unfold Action.attributeOf
  rw [execute_bind_of_ok hattribute]
  rfl

theorem Follows.execute_attributeOf_none (hfollows : s.Follows h)
    (hc : s.store.cell? a = some (.collection c)) (hname : ¬Collection.IsOwnName name)
    (hnone : Registry.lookup s.store c.registry name = none) :
    ∃ e, e.lacksAttribute = true ∧
      (Action.attributeOf (.ref a) name).execute s = (.error e, s) := by
  have hattribute := hfollows.execute_attribute? hc hname
  rw [hnone] at hattribute
  unfold Action.attributeOf
  rw [execute_bind_of_ok hattribute]
  exact execute_lacking s a name

/-! ## What a lookup sees -/

/-- In a state, extensions are what a history tells of them. -/
structure KeepsExtensions (s : State) (h : History) : Prop where
  /-- a collection belongs to the family of one that has been constructed -/
  family : ∀ {a : Address} {c : Collection}, s.store.cell? a = some (.collection c) →
    ∃ b given, h.Descends a b ∧ .constructed b c.registry given ∈ h
  /-- a family has one registry -/
  shares : ∀ {a b registry : Address} {given : Option Address}, h.Descends a b →
    .constructed b registry given ∈ h →
    ∃ c, s.store.cell? a = some (.collection c) ∧ c.registry = registry
  /-- no other family has it -/
  own : ∀ {b c registry : Address} {given given' : Option Address},
    .constructed b registry given ∈ h → .constructed c registry given' ∈ h → b = c
  /-- it extends the registry that was given, or else the shared one -/
  parent : ∀ {b registry : Address} {given : Option Address}, .constructed b registry given ∈ h →
    .made registry (some (given.getD sharedRegistry)) ∈ h
  /-- a name is found that a registry of the chain has, with what has been registered last in the
  nearest one -/
  found : ∀ {a : Address} {c : Collection} {name : String} {f : Value},
    s.store.cell? a = some (.collection c) → ¬Collection.IsOwnName name →
    h.Finds c.registry name f → (Action.attributeOf (.ref a) name).execute s =
      (.ok (.extension s.serial f (.ref a)), { s with serial := s.serial + 1 })
  /-- a name is lacking exactly when no registry of the chain has it -/
  lacks : ∀ {a : Address} {c : Collection} {name : String},
    s.store.cell? a = some (.collection c) → ¬Collection.IsOwnName name →
    ((∃ e, e.lacksAttribute = true ∧
      (Action.attributeOf (.ref a) name).execute s = (.error e, s)) ↔
      ∀ f, ¬h.Finds c.registry name f)
  /-- a registry is asked in the same way -/
  get : ∀ {a : Address} {name : String} {f : Value},
    Registry.lookup s.store a name = some f ↔ h.Finds a name f
  /-- it has the names that it gives something for -/
  names : ∀ {a : Address} {name : String},
    name ∈ Registry.names s.store a ↔ (Registry.lookup s.store a name).getD .null ≠ .null
  /-- a registry is made -/
  make : ∀ (parent : Option Address) (reserved : List String),
    (∀ p, parent = some p → ∃ r, s.store.cell? p = some (.registry r)) →
    ∃ b t, (Registry.make parent reserved).execute s = (.ok b, t) ∧ s.Happens [.made b parent] t
  /-- a function is registered, or nothing has changed -/
  register : ∀ {a : Address} {name f : Value} {r : Except Error Unit} {t : State},
    (Registry.register a name f).execute s = (r, t) → (∃ e, r = .error e ∧ t = s) ∨
      ∃ key, r = .ok () ∧ name = .str key ∧ s.Happens [.registered a key f] t
  /-- names are reserved, or nothing has changed -/
  reserve : ∀ {a : Address} {names : List String} {r : Except Error Unit} {t : State},
    (Registry.reserveAll a names).execute s = (r, t) →
    (∃ e, r = .error e ∧ t = s) ∨ (r = .ok () ∧ s.Happens [.reserved a names] t)
  /-- a function is registered for a family, or nothing has changed -/
  extend : ∀ {a : Address} {c : Collection} {name f : Value} {r : Except Error Value} {t : State},
    s.store.cell? a = some (.collection c) → (Collection.extend a name f).execute s = (r, t) →
    (∃ e, r = .error e ∧ t = s) ∨
      ∃ key, r = .ok (.ref a) ∧ name = .str key ∧ s.Happens [.registered c.registry key f] t
  /-- a collection is constructed, or nothing is but its registry -/
  construct : ∀ {items validators : Value} {policy given : Option Address}
    {r : Except Error Address} {t : State},
    (Collection.construct items validators policy given).execute s = (r, t) →
    (∃ e k, r = .error e ∧ s.Happens k t ∧
      (k = [] ∨ ∃ registry, k = History.founding registry given)) ∨
      ∃ c registry, r = .ok c ∧
        s.Happens (.constructed c registry given :: History.founding registry given) t
  /-- a method derives collections, and nothing else happens, when callbacks do no more -/
  derive : ∀ {caller : Caller} {a : Address} {call : Call}, call.method ∉ Method.roaming →
    (s.CallsWithin (Brings (Event.DerivesFrom a)) caller fun f => Collection.perform f a call) →
    Brings (Event.DerivesFrom a) s ((Collection.perform caller a call).execute s).2
  /-- so does a request for a part, or for items that are joined -/
  answer : ∀ {caller : Caller} {a : Address} {r : Request} {args : List Value},
    r ∉ Request.changing →
    (s.CallsWithin (Brings (Event.DerivesFrom a)) caller fun f => r.answer f (.ref a) args) →
    Brings (Event.DerivesFrom a) s ((r.answer caller (.ref a) args).execute s).2
  /-- with callbacks that do whatever a history can tell, a method does no more -/
  perform : ∀ {caller : Caller} {a : Address} {call : Call}, call.method ≠ .update →
    (s.CallsWithin (Brings fun _ => True) caller fun f => Collection.perform f a call) →
    ∃ k, s.Happens k ((Collection.perform caller a call).execute s).2
  /-- what is registered is seen through no registry that has the changed one not in its chain -/
  apart : ∀ {a b : Address} {key : String} {f : Value} {t : State},
    s.Happens [.registered a key f] t → ¬h.InChain a b →
    ∀ name, Registry.lookup t.store b name = Registry.lookup s.store b name

/-- A family shares one registry. -/
theorem Follows.registry_of_descends (hfollows : s.Follows h) {a b registry : Address}
    {given : Option Address} (hdescends : h.Descends a b)
    (hconstructed : .constructed b registry given ∈ h) :
    ∃ c, s.store.cell? a = some (.collection c) ∧ c.registry = registry := by
  induction hdescends with
  | constructed _ => exact (hfollows.events _ hconstructed).1
  | derived hderived _ ih =>
    obtain ⟨c, hc, hregistry⟩ := ih hconstructed
    obtain ⟨x, y, hx, hy, hxy⟩ := hfollows.events _ hderived
    obtain rfl : c = y := by
      rw [hc] at hy
      cases hy
      rfl
    exact ⟨x, hx, hxy.trans hregistry⟩

/-- The registry of a family extends the one that was given, or else the shared one. -/
theorem Follows.made_of_constructed (hfollows : s.Follows h) {b registry : Address}
    {given : Option Address} (hconstructed : .constructed b registry given ∈ h) :
    .made registry (some (given.getD sharedRegistry)) ∈ h := by
  obtain ⟨-, q, hq, hparent⟩ := hfollows.events _ hconstructed
  rcases hfollows.registry hq with rfl | hmade
  · obtain ⟨r, hr, hnone⟩ := hfollows.shared
    rw [hq] at hr
    cases hr
    rw [hparent] at hnone
    cases hnone
  · exact hparent ▸ hmade

/-- A registry has the names that it gives something for: no function is null. -/
theorem Follows.mem_names_iff (hfollows : s.Follows h) (a : Address) (name : String) :
    name ∈ Registry.names s.store a ↔ (Registry.lookup s.store a name).getD .null ≠ .null := by
  rw [Registry.mem_names_iff]
  cases hlookup : Registry.lookup s.store a name with
  | none => simp
  | some f =>
    obtain ⟨b, hregistered⟩ := (hfollows.lookup_eq_some_iff.mp hlookup).registered
    obtain ⟨⟨-, hf⟩, -⟩ := hfollows.events _ hregistered
    simpa using hf

/-- What is registered is seen through no registry that has the changed one not in its chain. -/
theorem Follows.lookup_apart {t : State} {a b : Address} {key : String} {f : Value}
    (hfollows : s.Follows h) (hst : s.Happens [.registered a key f] t) (happart : ¬h.InChain a b)
    (name : String) : Registry.lookup t.store b name = Registry.lookup s.store b name := by
  have hfollows' : t.Follows (.registered a key f :: h) := hst.follows hfollows
  refine Option.ext fun g => ?_
  rw [hfollows'.lookup_eq_some_iff, History.finds_registered_iff happart,
    ← hfollows.lookup_eq_some_iff]

/-- In every state that comes about from the start of a session, extensions are what its history
tells of them. -/
theorem Happens.keepsExtensions (hs : initial.Happens h s) : s.KeepsExtensions h := by
  have hfollows : s.Follows h := by simpa using hs.follows follows_initial
  have hfound : ∀ {a : Address} {c : Collection} {name : String} {f : Value},
      s.store.cell? a = some (.collection c) → ¬Collection.IsOwnName name →
        h.Finds c.registry name f → (Action.attributeOf (.ref a) name).execute s =
          (.ok (.extension s.serial f (.ref a)), { s with serial := s.serial + 1 }) :=
    fun hc hname hfinds =>
      hfollows.execute_attributeOf_some hc hname (hfollows.lookup_eq_some_iff.mpr hfinds)
  refine
    { family := fun hc => (hfollows.collection hc).2
      shares := fun hdescends => hfollows.registry_of_descends hdescends
      own := hfollows.own
      parent := hfollows.made_of_constructed
      found := hfound
      lacks := ?_
      get := hfollows.lookup_eq_some_iff
      names := fun {a name} => hfollows.mem_names_iff a name
      make := fun parent reserved hparent => ⟨_, Registry.execute_make s parent reserved hparent⟩
      register := Registry.execute_register
      reserve := ?_
      extend := Collection.execute_extend
      construct := Collection.execute_construct hfollows
      derive := ?_
      answer := ?_
      perform := ?_
      apart := hfollows.lookup_apart }
  · intro a c name hc hname
    constructor
    · rintro ⟨e, -, herror⟩ f hfinds
      rw [hfound hc hname hfinds] at herror
      cases herror
    · intro hnone
      refine hfollows.execute_attributeOf_none hc hname ?_
      exact Option.eq_none_iff_forall_ne_some.mpr fun f hf =>
        hnone f (hfollows.lookup_eq_some_iff.mp hf)
  · intro a names r t hrun
    rcases Registry.execute_reserveAll hrun with hrefused | ⟨hok, hreserved, -⟩
    · exact .inl hrefused
    · exact .inr ⟨hok, hreserved⟩
  · intro caller a call hnear hcalls
    exact hcalls.related fun f hf => Collection.obeys_perform_of_near hnear hf
  · intro caller a r args hreading hcalls
    exact hcalls.related fun f hf => Request.obeys_answer_of_deriving hf hreading args
  · intro caller a call hmethod hcalls
    obtain ⟨k, hk, -⟩ := hcalls.related fun f hf => Collection.obeys_perform hf hmethod a
    exact ⟨k, hk⟩

/-- A function has been registered for all collections. -/
def sized : State :=
  ((Registry.register sharedRegistry (.str "size") (.builtin .len)).execute .initial).2

/-- A collection has been made. -/
def founded : State := ((Collection.construct .null .null none none).execute sized).2

/-- The collection has been copied. -/
def copied : State := ((Collection.perform apply ⟨6⟩ ⟨.clone, []⟩).execute founded).2

/-- Another function has been registered under the same name, for the copy. -/
def shadowed : State := ((Collection.extend ⟨8⟩ (.str "size") (.builtin .abs)).execute copied).2

/-- What has happened until then. -/
def shadowing : History :=
  [.registered ⟨3⟩ "size" (.builtin .abs), .derived ⟨8⟩ ⟨6⟩, .constructed ⟨6⟩ ⟨3⟩ none,
    .made ⟨3⟩ (some sharedRegistry), .registered sharedRegistry "size" (.builtin .len)]

/-- The collection finds what has been registered for its copy. -/
theorem keepsExtensions_shadowed : initial.Happens shadowing shadowed ∧
    shadowed.KeepsExtensions shadowing ∧
    (Action.attributeOf (.ref ⟨6⟩) "size").execute shadowed =
      (.ok (.extension shadowed.serial (.builtin .abs) (.ref ⟨6⟩)),
        { shadowed with serial := shadowed.serial + 1 }) := by
  have hsized : initial.Happens [.registered sharedRegistry "size" (.builtin .len)] sized := by
    refine .write (c := .registry { reserved := builtinNames }) rfl (.registered _ ?_ rfl ?_)
    · decide +kernel
    · decide +kernel
  have hfollows := hsized.follows follows_initial
  have hfounded : sized.Happens [.constructed ⟨6⟩ ⟨3⟩ none, .made ⟨3⟩ (some sharedRegistry)]
      founded := by
    have hrun : (Collection.construct .null .null none none).execute sized =
        (.ok ⟨6⟩, founded) := rfl
    rcases Collection.execute_construct hfollows hrun with
      ⟨e, k, herror, -⟩ | ⟨c, registry, hok, hfounded⟩
    · cases herror
    · cases hok
      obtain ⟨⟨x, hx, rfl⟩, -⟩ := (hfounded.follows hfollows).events _ List.mem_cons_self
      cases hx
      exact hfounded
  have hcopied : founded.Happens [.derived ⟨8⟩ ⟨6⟩] copied := Happens.derive [] rfl
  have hshadowed : copied.Happens [.registered ⟨3⟩ "size" (.builtin .abs)] shadowed := by
    have hrun : (Collection.extend ⟨8⟩ (.str "size") (.builtin .abs)).execute copied =
        (.ok (.ref ⟨8⟩), shadowed) := rfl
    rcases Collection.execute_extend rfl hrun with ⟨e, herror, -⟩ | ⟨key, -, hkey, hshadowed⟩
    · cases herror
    · cases hkey
      exact hshadowed
  have hs : initial.Happens shadowing shadowed :=
    hsized.trans (hfounded.trans (hcopied.trans hshadowed))
  have hkeeps := hs.keepsExtensions
  have hcell : shadowed.store.cell? ⟨6⟩ =
      some (.collection ⟨⟨5⟩, ⟨2⟩, defaultPolicy, ⟨3⟩, ⟨4⟩, [], false⟩) := rfl
  exact ⟨hs, hkeeps, hkeeps.found hcell (by decide +kernel) (.here rfl)⟩

end State

end Recordset
