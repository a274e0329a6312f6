import Recordset.Proofs.Extension.Chain
import Recordset.Proofs.Obeys.Perform
set_option autoImplicit false

/-!
# The history of extensions

What happens to registries, and to the collections that look extensions up in them, is told by
events.  `State.Happens` relates a state to a later one together with what has happened in between,
in the words of a history.  A history says by itself where a lookup ends (`History.Finds`): it knows
which registry extends which and what has been registered in each of them.

The relation between states that leaves the history open, but for the kind of its events
(`State.Brings`), allows for whatever the methods of collections do: they make plain cells, derive
collections and change the one that they are called on.
-/

namespace Recordset

/-! ## Events -/

/-- Something that happens to registries, or to the collections that look extensions up in them. -/
inductive Event where
  /-- a registry is made that extends another one, or none -/
  | made (a : Address) (parent : Option Address)
  /-- a function is registered under a name -/
  | registered (a : Address) (name : String) (f : Value)
  /-- names are reserved -/
  | reserved (a : Address) (names : List String)
  /-- a collection is made that has a registry of its own and was given one, or none -/
  | constructed (c registry : Address) (given : Option Address)
  /-- a collection is derived from another one -/
  | derived (c origin : Address)

/-- What has happened, the latest first. -/
abbrev History := List Event

namespace Event

/-- The function that an event puts under a name of a registry. -/
def registration? (a : Address) (name : String) : Event → Option Value
  | registered b key f => if b = a ∧ key = name then some f else none
  | made _ _ | reserved _ _ | constructed _ _ _ | derived _ _ => none

/-- An event is no more than the derivation of a collection from a certain one. -/
def DerivesFrom (a : Address) : Event → Prop
  | derived _ b => b = a
  | made _ _ | registered _ _ _ | reserved _ _ | constructed _ _ _ => False

end Event

namespace History

variable {h k : History} {a b c d : Address} {name : String} {f : Value}

/-- The function that has been registered last in a registry under a name. -/
def latest? (h : History) (a : Address) (name : String) : Option Value :=
  h.findSome? (Event.registration? a name)

/-- A function is the one under a name in the nearest registry of a chain that has one. -/
inductive Finds (h : History) : Address → String → Value → Prop where
  | here {a : Address} {name : String} {f : Value} (hlatest : h.latest? a name = some f) :
    Finds h a name f
  | above {a p : Address} {name : String} {f : Value} (hnone : h.latest? a name = none)
    (hmade : Event.made a (some p) ∈ h) (hfinds : Finds h p name f) : Finds h a name f

/-- A registry is in the chain of another one. -/
inductive InChain (h : History) (b : Address) : Address → Prop where
  | here : InChain h b b
  | above {a p : Address} (hmade : Event.made a (some p) ∈ h) (hchain : InChain h b p) :
    InChain h b a

/-- A collection is a certain one that has been constructed, or is derived from it, directly or
through others. -/
inductive Descends (h : History) : Address → Address → Prop where
  | constructed {c r : Address} {given : Option Address}
    (hmade : Event.constructed c r given ∈ h) : Descends h c c
  | derived {c b d : Address} (hderived : Event.derived c b ∈ h) (hdescends : Descends h b d) :
    Descends h c d

@[simp] theorem latest?_cons (e : Event) :
    latest? (e :: h) a name = (e.registration? a name).or (h.latest? a name) := by
  unfold latest?
  rw [List.findSome?_cons]
  cases e.registration? a name <;> rfl

theorem registered_of_latest? (hlatest : h.latest? a name = some f) :
    Event.registered a name f ∈ h := by
  obtain ⟨e, he, hregistration⟩ := List.exists_of_findSome?_eq_some hlatest
  cases e with
  | registered b key g =>
    simp only [Event.registration?] at hregistration
    split at hregistration
    · rename_i hkey
      obtain ⟨rfl, rfl⟩ := hkey
      cases hregistration
      exact he
    · cases hregistration
  | _ => cases hregistration

/-- What happens when a collection gets a registry of its own. -/
def founding (registry : Address) (given : Option Address) : History :=
  .made registry (some (given.getD State.sharedRegistry)) ::
    given.toList.map fun g => .reserved g builtinNames

/-- Descent is for good. -/
theorem Descends.append (hdescends : h.Descends c d) (k : History) : Descends (k ++ h) c d := by
  induction hdescends with
  | constructed hmade => exact .constructed (List.mem_append_right k hmade)
  | derived hderived _ ih => exact .derived (List.mem_append_right k hderived) ih

end History

/-! ## What happens between two states -/

namespace State

/-- A registry is there for a new collection: it extends the given or the shared one, and it guards
the names of methods, as the given one does. -/
structure Grants (s : State) (registry : Address) (given : Option Address) : Prop where
  own : ∃ q, s.store.cell? registry = some (.registry q) ∧
    q.parent = some (given.getD sharedRegistry) ∧ q.Guards
  given : ∀ g, given = some g → ∃ p, s.store.cell? g = some (.registry p) ∧ p.Guards

/-- What it means that a cell is made. -/
inductive Makes (s : State) : Cell → History → Prop where
  | plain {c : Cell} (hplain : c.hasExtensions = false) : Makes s c []
  | registry {parent : Option Address} (reserved : List String)
    (hparent : ∀ p, parent = some p → ∃ q, s.store.cell? p = some (.registry q)) :
    Makes s (.registry { parent, reserved }) [.made ⟨s.store.size⟩ parent]
  /-- a collection comes with a registry that no other one has -/
  | constructed {c : Collection} {given : Option Address} (hfields : c.fields = [])
    (hgrants : s.Grants c.registry given)
    (hown : ∀ {b d}, s.store.cell? b = some (.collection d) → d.registry ≠ c.registry) :
    Makes s (.collection c) [.constructed ⟨s.store.size⟩ c.registry given]
  | derived {a : Address} {c : Collection} (hc : s.store.cell? a = some (.collection c))
    (list : Address) : Makes s (.collection (c.derive list)) [.derived ⟨s.store.size⟩ a]

/-- What it means that a cell is changed. -/
inductive Changes (s : State) (a : Address) : Cell → Cell → History → Prop where
  | plain {c d : Cell} (hcd : c.Becomes d) (hplain : c.hasExtensions = false) : Changes s a c d []
  | grown (c : Collection) (grown : Bool) :
    Changes s a (.collection c) (.collection { c with grown }) []
  | registered (r : Registry) {name : String} {f : Value}
    (hname : Registry.isExtensionName name = true) (hf : s.store.isCallable f = true)
    (hfree : name ∉ Registry.reservedNames s.store a) :
    Changes s a (.registry r) (.registry (r.insert name f)) [.registered a name f]
  | reserved (r : Registry) {names : List String}
    (hfree : ∀ name ∈ names, name ∉ Registry.names s.store a) :
    Changes s a (.registry r) (.registry (r.reserve names)) [.reserved a names]

/-- A state comes after another one, and a history tells what has happened in between. -/
inductive Happens : State → History → State → Prop where
  | idle {s t : State} (hstore : t.store = s.store) : Happens s [] t
  | alloc {s : State} {c : Cell} {h : History} (hmakes : s.Makes c h) :
    Happens s h { s with store := (s.store.alloc c).2 }
  | write {s : State} {a : Address} {c d : Cell} {h : History} (hc : s.store.cell? a = some c)
    (hchanges : s.Changes a c d h) : Happens s h { s with store := s.store.write a d }
  | trans {s t u : State} {h k : History} (hst : Happens s h t) (htu : Happens t k u) :
    Happens s (k ++ h) u

variable {s t : State} {h k : History}

theorem Changes.becomes {a : Address} {c d : Cell} (hchanges : s.Changes a c d h) :
    c.Becomes d := by
  cases hchanges with
  | plain hcd _ => exact hcd
  | _ => constructor

theorem Happens.evolves (hst : s.Happens h t) : s.Evolves t := by
  induction hst with
  | idle hstore => exact evolves_of_store hstore
  | alloc _ => exact evolves_alloc _ _
  | write hc hchanges => exact evolves_write hc hchanges.becomes
  | trans _ _ hst htu => exact hst.trans htu

/-! ## What methods bring about -/

/-- A state comes after another one, and all that has happened in between is of a certain kind. -/
def Brings (E : Event → Prop) (s t : State) : Prop := ∃ h, s.Happens h t ∧ ∀ e ∈ h, E e

variable {E : Event → Prop} {a : Address}

/-- Nothing has happened when there is nothing that may. -/
theorem Brings.happens (hst : Brings (fun _ => False) s t) : s.Happens [] t := by
  obtain ⟨h, hhappens, hkind⟩ := hst
  obtain rfl : h = [] := List.eq_nil_iff_forall_not_mem.mpr hkind
  exact hhappens

theorem Happens.brings (hst : s.Happens [] t) : Brings E s t := ⟨[], hst, by simp⟩

instance : Base (Brings E) where
  evolves := fun ⟨_, hst, _⟩ => hst.evolves
  trans := by
    rintro s t u ⟨h, hst, hh⟩ ⟨k, htu, hk⟩
    refine ⟨k ++ h, hst.trans htu, fun e he => ?_⟩
    rcases List.mem_append.mp he with he | he
    · exact hk e he
    · exact hh e he
  idle hstore := (Happens.idle hstore).brings
  alloc s c hc := (Happens.alloc (s := s) (.plain hc)).brings
  pass hc hcd hplain := (Happens.write hc (.plain hcd.becomes hplain)).brings

instance : Owner (Brings E) a where
  fill xs _ _ hlist := (Happens.write hlist (.plain (.list _ xs) rfl)).brings
  grow grown hc := (Happens.write hc (.grown _ grown)).brings

theorem Happens.derive {c : Collection} (xs : List Value)
    (hc : s.store.cell? a = some (.collection c)) :
    s.Happens [.derived ⟨s.store.size + 1⟩ a] { s with store :=
      ((s.store.alloc (.list xs)).2.alloc (.collection (c.derive ⟨s.store.size⟩))).2 } := by
  have hlist : s.Happens [] { s with store := (s.store.alloc (.list xs)).2 } := .alloc (.plain rfl)
  have hkept : (s.store.alloc (.list xs)).2.cell? a = some (.collection c) :=
    (Store.cell?_alloc_of_lt _ (Array.getElem?_eq_some_iff.mp hc).1).trans hc
  have hsize : (s.store.alloc (.list xs)).2.size = s.store.size + 1 := Array.size_push _
  have hderived := hlist.trans (.alloc (.derived hkept ⟨s.store.size⟩))
  rw [← hsize]
  exact hderived

instance : Deriver (Brings (Event.DerivesFrom a)) a where
  derive xs hc := ⟨_, Happens.derive xs hc, by simp [Event.DerivesFrom]⟩

instance : Deriver (Brings fun _ => True) a where
  derive xs hc := ⟨_, Happens.derive xs hc, by simp⟩

instance : Extender (Brings fun _ => True) where
  extend hr hname hf hfree := ⟨_, .write hr (.registered _ hname hf hfree), by simp⟩

end State

end Recordset
