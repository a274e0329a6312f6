import Recordset.Proofs.Extension.Steps
set_option autoImplicit false

/-!
# The names of methods and extensions

A collection's own registry guards the names of methods, and so does the registry that this one
extends: both reserve the names, and none is registered in them (`State.GuardsTwice`).  What comes
after them in the chain need not, so that a method's name is out of reach of extensions exactly when
no registry further along has it (`State.Happens.lookup_builtin_eq_none_iff`).  A reservation looks
along the chain for extensions of the names, but a registration looks for reservations only from its
own registry on.
-/

namespace Recordset

open Recordset.Action

namespace State

variable {s t : State} {h k : History} {a registry : Address} {given : Option Address}

/-- A registry guards the names of methods, and so does the one that it extends. -/
def GuardsTwice (s : State) (registry : Address) : Prop :=
  ∃ q b p, s.store.cell? registry = some (.registry q) ∧ q.parent = some b ∧ q.Guards ∧
    s.store.cell? b = some (.registry p) ∧ p.Guards

/-- The registry of all collections guards the names of methods. -/
def SharedGuards (s : State) : Prop :=
  ∃ r, s.store.cell? sharedRegistry = some (.registry r) ∧ r.Guards

theorem GuardsTwice.carry (hguards : s.GuardsTwice registry) (hst : s.Carries t) :
    t.GuardsTwice registry := by
  obtain ⟨q, b, p, hq, hparent, hguards, hp, hguards'⟩ := hguards
  obtain ⟨q', hq', hqq', hkept⟩ := hst.registry hq
  obtain ⟨p', hp', -, hkept'⟩ := hst.registry hp
  exact ⟨q', b, p', hq', hqq'.trans hparent, hkept hguards, hp', hkept' hguards'⟩

theorem SharedGuards.carry (hshared : s.SharedGuards) (hst : s.Carries t) : t.SharedGuards := by
  obtain ⟨r, hr, hguards⟩ := hshared
  obtain ⟨q, hq, -, hkept⟩ := hst.registry hr
  exact ⟨q, hq, hkept hguards⟩

theorem sharedGuards_initial : initial.SharedGuards :=
  ⟨{ reserved := builtinNames }, rfl, fun _ hname => ⟨hname, rfl⟩⟩

/-- A registry that is there for a new collection guards twice. -/
theorem Grants.guardsTwice (hgrants : s.Grants registry given) (hshared : s.SharedGuards) :
    s.GuardsTwice registry := by
  obtain ⟨⟨q, hq, hparent, hguards⟩, hgiven⟩ := hgrants
  cases given with
  | none =>
    obtain ⟨p, hp, hguards'⟩ := hshared
    exact ⟨q, _, p, hq, hparent, hguards, hp, hguards'⟩
  | some g =>
    obtain ⟨p, hp, hguards'⟩ := hgiven g rfl
    exact ⟨q, g, p, hq, hparent, hguards, hp, hguards'⟩

/-- The registry of a collection that has been constructed guards twice. -/
theorem Happens.guardsTwice (hst : s.Happens k t) (hshared : s.SharedGuards) {c : Address}
    (hconstructed : .constructed c registry given ∈ k) : t.GuardsTwice registry := by
  induction hst with
  | idle _ => cases hconstructed
  | alloc hmakes =>
    cases hmakes with
    | plain => cases hconstructed
    | registry => cases List.mem_singleton.mp hconstructed
    | constructed _ hgrants =>
      cases List.mem_singleton.mp hconstructed
      exact (hgrants.guardsTwice hshared).carry (carries_alloc _ _)
    | derived => cases List.mem_singleton.mp hconstructed
  | write _ hchanges => exact absurd hconstructed hchanges.not_constructed
  | trans hst htu ihst ihtu =>
    rcases List.mem_append.mp hconstructed with hlater | hearlier
    · exact ihtu (hshared.carry hst.carries) hlater
    · exact (ihst hshared hearlier).carry htu.carries

/-- Behind two registries that guard a method's name, a lookup goes on with the rest of the
chain. -/
theorem GuardsTwice.lookup_eq (hguards : s.GuardsTwice registry) (hrooted : s.store.Rooted)
    {name : String} (hname : name ∈ builtinNames) :
    Registry.lookup s.store registry name =
      ((Registry.chain s.store registry).drop 2).findSome? (·.get? name) := by
  obtain ⟨q, b, p, hq, hparent, hguards, hp, hguards'⟩ := hguards
  have hchain : Registry.chain s.store registry = q :: Registry.chain s.store b := by
    rw [Registry.chain_eq hrooted hq, hparent]
    rfl
  have hchain' : ∃ rest, Registry.chain s.store b = p :: rest :=
    ⟨_, Registry.chain_eq hrooted hp⟩
  obtain ⟨rest, hrest⟩ := hchain'
  unfold Registry.lookup
  rw [hchain, hrest, List.findSome?_cons, (hguards name hname).2, List.findSome?_cons,
    (hguards' name hname).2]
  rfl

/-- In every state that comes about from the start of a session, the registry of a collection gives
nothing for the name of a method, and does not have it among its names, exactly when no registry
after the first two of its chain has an extension of that name. -/
theorem Happens.lookup_builtin_eq_none_iff (hs : initial.Happens h s) {c : Collection}
    (hc : s.store.cell? a = some (.collection c)) {name : String} (hname : name ∈ builtinNames) :
    (Registry.lookup s.store c.registry name = none ∧
      name ∉ Registry.names s.store c.registry) ↔
        ∀ r ∈ (Registry.chain s.store c.registry).drop 2, r.contains name = false := by
  have hfollows : s.Follows h := by simpa using hs.follows follows_initial
  obtain ⟨-, b, given, -, hconstructed⟩ := hfollows.collection hc
  have hguards := hs.guardsTwice sharedGuards_initial hconstructed
  have hlookup := hguards.lookup_eq hfollows.rooted hname
  have hnone : Registry.lookup s.store c.registry name = none ↔
      ∀ r ∈ (Registry.chain s.store c.registry).drop 2, r.contains name = false := by
    rw [hlookup, List.findSome?_eq_none_iff]
    refine forall₂_congr fun r _ => ?_
    rw [← Bool.not_eq_true, Registry.contains_iff, Option.not_isSome_iff_eq_none]
  rw [Registry.mem_names_iff, Option.not_isSome_iff_eq_none, and_self]
  exact hnone

/-! ## A registration that comes late -/

/-- A registry has been made, and another one that extends it. -/
def chained : State :=
  ((do Registry.make (some (← Registry.make none [])) [] : Action Address).execute .initial).2

/-- A collection has been given the latter. -/
def guarded : State := ((Collection.construct .null .null none (some ⟨3⟩)).execute chained).2

/-- That collection. -/
def guardedCollection : Collection where
  list := ⟨7⟩
  validators := ⟨4⟩
  policy := defaultPolicy
  registry := ⟨5⟩
  generator := ⟨6⟩

/-- A function has been registered in the former, under the name of a method. -/
def late : State :=
  ((Registry.register ⟨2⟩ (.str Method.select.name) (.builtin .len)).execute guarded).2

/-- What has happened until then. -/
def lateness : History :=
  [.registered ⟨2⟩ Method.select.name (.builtin .len), .constructed ⟨8⟩ ⟨5⟩ (some ⟨3⟩),
    .made ⟨5⟩ (some ⟨3⟩), .reserved ⟨3⟩ builtinNames, .made ⟨3⟩ (some ⟨2⟩), .made ⟨2⟩ none]

theorem happens_late : initial.Happens lateness late := by
  have hchained : initial.Happens [.made ⟨3⟩ (some ⟨2⟩), .made ⟨2⟩ none] chained := by
    have htop : initial.Happens [.made ⟨2⟩ none] _ := .alloc (.registry [] fun p hp => by cases hp)
    refine htop.trans (.alloc (.registry [] fun p hp => ?_))
    cases hp
    exact ⟨_, rfl⟩
  have hfollows := hchained.follows follows_initial
  have hguarded : chained.Happens
      [.constructed ⟨8⟩ ⟨5⟩ (some ⟨3⟩), .made ⟨5⟩ (some ⟨3⟩), .reserved ⟨3⟩ builtinNames]
      guarded := by
    have hrun : (Collection.construct .null .null none (some ⟨3⟩)).execute chained =
        (.ok ⟨8⟩, guarded) := by with_unfolding_all rfl
    rcases Collection.execute_construct hfollows hrun with
      ⟨e, k, herror, -⟩ | ⟨c, registry, hok, hguarded⟩
    · cases herror
    · cases hok
      have hcell : guarded.store.cell? ⟨8⟩ = some (.collection guardedCollection) := by
        with_unfolding_all rfl
      obtain ⟨⟨x, hx, rfl⟩, -⟩ := (hguarded.follows hfollows).events _ List.mem_cons_self
      rw [hcell] at hx
      cases hx
      exact hguarded
  have hlate : guarded.Happens [.registered ⟨2⟩ Method.select.name (.builtin .len)] late := by
    have hrun : (Registry.register ⟨2⟩ (.str Method.select.name) (.builtin .len)).execute guarded =
        (.ok (), late) := by with_unfolding_all rfl
    rcases Registry.execute_register hrun with ⟨e, herror, -⟩ | ⟨key, -, hkey, hlate⟩
    · cases herror
    · cases hkey
      exact hlate
  exact hchained.trans (hguarded.trans hlate)

theorem cell_late : late.store.cell? ⟨8⟩ = some (.collection guardedCollection) := by
  with_unfolding_all rfl

/-- The names of other methods stay out of reach. -/
theorem lookup_filter_late : initial.Happens lateness late ∧
    late.store.cell? ⟨8⟩ = some (.collection guardedCollection) ∧
    Method.filter.name ∈ builtinNames ∧
    Registry.lookup late.store guardedCollection.registry Method.filter.name = none ∧
    Method.filter.name ∉ Registry.names late.store guardedCollection.registry := by
  have hname : Method.filter.name ∈ builtinNames := by decide +kernel
  refine ⟨happens_late, cell_late, hname, ?_⟩
  exact (happens_late.lookup_builtin_eq_none_iff cell_late hname).mpr (by decide +kernel)

/-- The registry of the collection gives the function that has been registered under the name of a
method, and has the name among its own. -/
theorem lookup_select_late : initial.Happens lateness late ∧
    late.store.cell? ⟨8⟩ = some (.collection guardedCollection) ∧
    Method.select.name ∈ builtinNames ∧
    Registry.lookup late.store guardedCollection.registry Method.select.name =
      some (.builtin .len) ∧
    Method.select.name ∈ Registry.names late.store guardedCollection.registry := by
  refine ⟨happens_late, cell_late, by decide +kernel, ?_, by decide +kernel⟩
  with_unfolding_all rfl

end State

end Recordset
