import Recordset.Proofs.Extension.History
import Recordset.Proofs.Ownership.Basic
set_option autoImplicit false

/-!
# States follow their history

A state follows a history when its registries and collections are what the history says of them: the
registries that have been made, each with its parent and with what has been registered last, and the
collections that have been constructed or derived, each with the registry of its family
(`State.Follows`).  The state at the start of a session follows the empty history, and what happens
to a state that follows a history makes it follow the longer one (`State.Happens.follows`).
-/

namespace Recordset

namespace State

variable {s t u : State} {h k : History} {a : Address} {c d : Cell}

/-! ## What is carried on -/

/-- A state comes after another one, registries extend what they have extended and guard what they
have guarded, and collections look extensions up where they have. -/
structure Carries (s t : State) : Prop where
  marks : t.store.marks = s.store.marks
  registry : ∀ {a : Address} {r : Registry}, s.store.cell? a = some (.registry r) →
    ∃ q, t.store.cell? a = some (.registry q) ∧ q.parent = r.parent ∧ (r.Guards → q.Guards)
  collection : ∀ {a : Address} {x : Collection}, s.store.cell? a = some (.collection x) →
    ∃ y, t.store.cell? a = some (.collection y) ∧ y.registry = x.registry ∧ y.fields = x.fields

theorem Carries.trans (hst : s.Carries t) (htu : t.Carries u) : s.Carries u := by
  refine ⟨htu.marks.trans hst.marks, fun hr => ?_, fun hx => ?_⟩
  · obtain ⟨q, hq, hqr, hguards⟩ := hst.registry hr
    obtain ⟨p, hp, hpq, hguards'⟩ := htu.registry hq
    exact ⟨p, hp, hpq.trans hqr, fun h => hguards' (hguards h)⟩
  · obtain ⟨y, hy, hregistry, hfields⟩ := hst.collection hx
    obtain ⟨z, hz, hregistry', hfields'⟩ := htu.collection hy
    exact ⟨z, hz, hregistry'.trans hregistry, hfields'.trans hfields⟩

theorem carries_of_store (hstore : t.store = s.store) : s.Carries t := by
  refine ⟨by rw [hstore], fun hr => ?_, fun hx => ?_⟩
  · exact ⟨_, by rw [hstore]; exact hr, rfl, id⟩
  · exact ⟨_, by rw [hstore]; exact hx, rfl, rfl⟩

theorem carries_alloc (s : State) (c : Cell) :
    s.Carries { s with store := (s.store.alloc c).2 } := by
  have hkept : ∀ {a : Address} {d : Cell}, s.store.cell? a = some d →
      (s.store.alloc c).2.cell? a = some d := fun hd => Store.cell?_alloc_eq_some.mpr (.inl hd)
  exact ⟨rfl, fun hr => ⟨_, hkept hr, rfl, id⟩, fun hx => ⟨_, hkept hx, rfl, rfl⟩⟩

theorem Changes.carries (hc : s.store.cell? a = some c) (hchanges : s.Changes a c d k) :
    s.Carries { s with store := s.store.write a d } := by
  refine ⟨rfl, fun {b r} hr => ?_, fun {b x} hx => ?_⟩
  · by_cases hba : b = a
    · subst hba
      obtain rfl : c = .registry r := Option.some.inj (hc.symm.trans hr)
      have hwritten : (s.store.write b d).cell? b = some d :=
        Store.cell?_write_of_lt d (Store.index_lt_of_cell? hc)
      cases hchanges with
      | plain _ hplain => cases hplain
      | registered _ _ _ hfree =>
        refine ⟨_, hwritten, Registry.parent_insert, fun hguards => ?_⟩
        exact hguards.insert (fun h => hfree (Registry.mem_reservedNames_of_mem hc h)) _
      | reserved => exact ⟨_, hwritten, rfl, fun hguards => hguards.reserve _⟩
    · exact ⟨r, (Store.cell?_write_of_ne d hba).trans hr, rfl, id⟩
  · by_cases hba : b = a
    · subst hba
      obtain rfl : c = .collection x := Option.some.inj (hc.symm.trans hx)
      cases hchanges with
      | plain _ hplain => cases hplain
      | grown => exact ⟨_, Store.cell?_write_of_lt _ (Store.index_lt_of_cell? hc), rfl, rfl⟩
    · exact ⟨x, (Store.cell?_write_of_ne d hba).trans hx, rfl, rfl⟩

theorem Happens.carries (hst : s.Happens h t) : s.Carries t := by
  induction hst with
  | idle hstore => exact carries_of_store hstore
  | alloc _ => exact carries_alloc _ _
  | write hc hchanges => exact hchanges.carries hc
  | trans _ _ hst htu => exact hst.trans htu

theorem Grants.carry {registry : Address} {given : Option Address}
    (hgrants : s.Grants registry given) (hst : s.Carries t) : t.Grants registry given := by
  obtain ⟨⟨q, hq, hparent, hguards⟩, hgiven⟩ := hgrants
  refine ⟨?_, fun g hg => ?_⟩
  · obtain ⟨q', hq', hqq', hguards'⟩ := hst.registry hq
    exact ⟨q', hq', hqq'.trans hparent, hguards' hguards⟩
  · obtain ⟨p, hp, hguards⟩ := hgiven g hg
    obtain ⟨p', hp', -, hguards'⟩ := hst.registry hp
    exact ⟨p', hp', hguards' hguards⟩

end State

/-- What an event leaves behind. -/
def Event.Shows (s : State) : Event → Prop
  | made a parent => ∃ r, s.store.cell? a = some (.registry r) ∧ r.parent = parent
  | registered a name f => (Registry.isExtensionName name = true ∧ f ≠ .null) ∧
    ∃ r, s.store.cell? a = some (.registry r)
  | reserved a _ => ∃ r, s.store.cell? a = some (.registry r)
  | constructed c registry given =>
    (∃ x, s.store.cell? c = some (.collection x) ∧ x.registry = registry) ∧
      ∃ q, s.store.cell? registry = some (.registry q) ∧
        q.parent = some (given.getD State.sharedRegistry)
  | derived c origin => ∃ x y, s.store.cell? c = some (.collection x) ∧
    s.store.cell? origin = some (.collection y) ∧ x.registry = y.registry

/-- What an event leaves behind stays. -/
theorem Event.Shows.carry {s t : State} {e : Event} (hshows : e.Shows s) (hst : s.Carries t) :
    e.Shows t := by
  cases e with
  | made a parent =>
    obtain ⟨r, hr, hparent⟩ := hshows
    obtain ⟨q, hq, hqr, -⟩ := hst.registry hr
    exact ⟨q, hq, hqr.trans hparent⟩
  | registered a name f =>
    obtain ⟨hvalid, r, hr⟩ := hshows
    obtain ⟨q, hq, -⟩ := hst.registry hr
    exact ⟨hvalid, q, hq⟩
  | reserved a names =>
    obtain ⟨r, hr⟩ := hshows
    obtain ⟨q, hq, -⟩ := hst.registry hr
    exact ⟨q, hq⟩
  | constructed c registry given =>
    obtain ⟨⟨x, hx, hregistry⟩, q, hq, hparent⟩ := hshows
    obtain ⟨y, hy, hyx, -⟩ := hst.collection hx
    obtain ⟨p, hp, hpq, -⟩ := hst.registry hq
    exact ⟨⟨y, hy, hyx.trans hregistry⟩, p, hp, hpq.trans hparent⟩
  | derived c origin =>
    obtain ⟨x, y, hx, hy, hxy⟩ := hshows
    obtain ⟨x', hx', hregistry, -⟩ := hst.collection hx
    obtain ⟨y', hy', hregistry', -⟩ := hst.collection hy
    exact ⟨x', y', hx', hy', hregistry.trans (hxy.trans hregistry'.symm)⟩

namespace State

variable {s t u : State} {h k : History} {a : Address} {c d : Cell}

/-! ## Following a history -/

/-- The registries and collections of a state are what a history says of them. -/
structure Follows (s : State) (h : History) : Prop where
  unmarked : s.store.marks = []
  rooted : s.store.Rooted
  shared : ∃ r, s.store.cell? sharedRegistry = some (.registry r) ∧ r.parent = none
  registry : ∀ {a : Address} {r : Registry}, s.store.cell? a = some (.registry r) →
    a = sharedRegistry ∨ .made a r.parent ∈ h
  table : ∀ {a : Address} {r : Registry}, s.store.cell? a = some (.registry r) →
    ∀ name, r.get? name = h.latest? a name
  collection : ∀ {a : Address} {x : Collection}, s.store.cell? a = some (.collection x) →
    x.fields = [] ∧ ∃ b given, h.Descends a b ∧ .constructed b x.registry given ∈ h
  events : ∀ e ∈ h, e.Shows s
  own : ∀ {b c r : Address} {given given' : Option Address}, .constructed b r given ∈ h →
    .constructed c r given' ∈ h → b = c

theorem follows_initial : initial.Follows [] := by
  have hcells : ∀ {a : Address} {c : Cell}, initial.store.cell? a = some c →
      (a = ⟨0⟩ ∧ c = .policy {}) ∨
        (a = sharedRegistry ∧ c = .registry { reserved := builtinNames }) := by
    rintro ⟨i⟩ c hc
    rcases i with _ | _ | i
    · exact .inl ⟨rfl, (Option.some.inj hc).symm⟩
    · exact .inr ⟨rfl, (Option.some.inj hc).symm⟩
    · cases hc
  have hregistry : ∀ {a : Address} {r : Registry}, initial.store.cell? a = some (.registry r) →
      a = sharedRegistry ∧ r = { reserved := builtinNames } := by
    intro a r hr
    rcases hcells hr with ⟨-, hcell⟩ | ⟨ha, hcell⟩
    · cases hcell
    · exact ⟨ha, by cases hcell; rfl⟩
  have hnone : ∀ {a : Address} {x : Collection},
      initial.store.cell? a ≠ some (.collection x) := by
    intro a x hx
    rcases hcells hx with ⟨-, hcell⟩ | ⟨-, hcell⟩
    · cases hcell
    · cases hcell
  refine ⟨rfl, ?_, ⟨_, rfl, rfl⟩, fun hr => .inl (hregistry hr).1, ?_, fun hx => absurd hx hnone,
    by simp, by simp⟩
  · intro a p r hr hparent
    obtain ⟨-, rfl⟩ := hregistry hr
    cases hparent
  · intro a r hr name
    obtain ⟨-, rfl⟩ := hregistry hr
    rfl

/-- A cell that is made registers nothing. -/
theorem Makes.latest? (hmakes : s.Makes c k) (name : String) :
    History.latest? (k ++ h) a name = h.latest? a name := by
  cases hmakes <;> simp [Event.registration?]

/-- Nothing has been registered in what is still to be made. -/
theorem Follows.latest?_new (hfollows : s.Follows h) (name : String) :
    h.latest? ⟨s.store.size⟩ name = none := by
  refine Option.eq_none_iff_forall_ne_some.mpr fun f hlatest => ?_
  obtain ⟨-, r, hr⟩ := hfollows.events _ (History.registered_of_latest? hlatest)
  exact Nat.lt_irrefl _ (Store.index_lt_of_cell? hr)

/-- What a new cell means shows in it. -/
theorem Makes.shows (hmakes : s.Makes c k) {e : Event} (he : e ∈ k) :
    e.Shows { s with store := (s.store.alloc c).2 } := by
  have hnew : (s.store.alloc c).2.cell? ⟨s.store.size⟩ = some c := s.store.cell?_alloc c
  have hkept : ∀ {b : Address} {d : Cell}, s.store.cell? b = some d →
      (s.store.alloc c).2.cell? b = some d := fun hd => Store.cell?_alloc_eq_some.mpr (.inl hd)
  cases hmakes with
  | plain => cases he
  | registry reserved hparent =>
    obtain rfl := List.mem_singleton.mp he
    exact ⟨_, hnew, rfl⟩
  | constructed _ hgrants =>
    obtain rfl := List.mem_singleton.mp he
    obtain ⟨q, hq, hparent, -⟩ := hgrants.own
    exact ⟨⟨_, hnew, rfl⟩, q, hkept hq, hparent⟩
  | derived hc list =>
    obtain rfl := List.mem_singleton.mp he
    exact ⟨_, _, hnew, hkept hc, rfl⟩

/-- A registry belongs to one collection alone, also when a cell has been made. -/
theorem Follows.own_alloc (hfollows : s.Follows h) (hmakes : s.Makes c k) {b b' r : Address}
    {given given' : Option Address} (hb : .constructed b r given ∈ k ++ h)
    (hb' : .constructed b' r given' ∈ k ++ h) : b = b' := by
  cases hmakes with
  | @constructed x given'' hfields hgrants hown =>
    -- no collection from before has the registry of the new one
    have hother : ∀ {e : Address} {g : Option Address},
        Event.constructed e x.registry g ∉ h := by
      intro e g he
      obtain ⟨⟨y, hy, hregistry⟩, -⟩ := hfollows.events _ he
      exact hown hy hregistry
    rcases List.mem_append.mp hb with hnew | hold <;>
      rcases List.mem_append.mp hb' with hnew' | hold'
    · cases List.mem_singleton.mp hnew
      cases List.mem_singleton.mp hnew'
      rfl
    · cases List.mem_singleton.mp hnew
      exact absurd hold' hother
    · cases List.mem_singleton.mp hnew'
      exact absurd hold hother
    · exact hfollows.own hold hold'
  | _ => exact hfollows.own (by simpa using hb) (by simpa using hb')

/-- A state in which a cell has been made follows what that means. -/
theorem Follows.alloc (hfollows : s.Follows h) (hmakes : s.Makes c k) :
    Follows { s with store := (s.store.alloc c).2 } (k ++ h) := by
  have hcells : ∀ {b : Address} {d : Cell}, (s.store.alloc c).2.cell? b = some d →
      s.store.cell? b = some d ∨ (b = ⟨s.store.size⟩ ∧ c = d) :=
    fun hd => Store.cell?_alloc_eq_some.mp hd
  refine ⟨hfollows.unmarked, ?_, ?_, ?_, ?_, ?_, ?_, ?_⟩
  · intro b p r hr hp
    rcases hcells hr with hold | ⟨rfl, rfl⟩
    · exact hfollows.rooted hold hp
    · cases hmakes with
      | plain hplain => cases hplain
      | registry _ hparent =>
        obtain ⟨q, hq⟩ := hparent p hp
        exact Store.index_lt_of_cell? hq
  · obtain ⟨r, hr, hparent⟩ := hfollows.shared
    obtain ⟨q, hq, hqr, -⟩ := (carries_alloc s c).registry hr
    exact ⟨q, hq, hqr.trans hparent⟩
  · intro b r hr
    rcases hcells hr with hold | ⟨rfl, rfl⟩
    · exact (hfollows.registry hold).imp_right (List.mem_append_right k)
    · cases hmakes with
      | plain hplain => cases hplain
      | registry => exact .inr (by simp)
  · intro b r hr name
    rw [hmakes.latest? name]
    rcases hcells hr with hold | ⟨rfl, rfl⟩
    · exact hfollows.table hold name
    · rw [hfollows.latest?_new name]
      cases hmakes with
      | plain hplain => cases hplain
      | registry => rfl
  · intro b x hx
    rcases hcells hx with hold | ⟨rfl, rfl⟩
    · obtain ⟨hfields, d, given, hdescends, hmade⟩ := hfollows.collection hold
      exact ⟨hfields, d, given, hdescends.append k, List.mem_append_right k hmade⟩
    · cases hmakes with
      | plain hplain => cases hplain
      | constructed hfields =>
        exact ⟨hfields, _, _, .constructed List.mem_cons_self, List.mem_cons_self⟩
      | derived hy list =>
        obtain ⟨-, d, given, hdescends, hmade⟩ := hfollows.collection hy
        exact ⟨rfl, d, given, .derived List.mem_cons_self (hdescends.append _),
          List.mem_cons_of_mem _ hmade⟩
  · intro e he
    rcases List.mem_append.mp he with hnew | hold
    · exact hmakes.shows hnew
    · exact (hfollows.events e hold).carry (carries_alloc s c)
  · exact fun hb hb' => hfollows.own_alloc hmakes hb hb'

/-- What a change means shows in the cell. -/
theorem Changes.shows (hc : s.store.cell? a = some c) (hchanges : s.Changes a c d k) {e : Event}
    (he : e ∈ k) : e.Shows { s with store := s.store.write a d } := by
  have hwritten : (s.store.write a d).cell? a = some d :=
    Store.cell?_write_of_lt d (Store.index_lt_of_cell? hc)
  cases hchanges with
  | plain => cases he
  | grown => cases he
  | registered r hname hf =>
    obtain rfl := List.mem_singleton.mp he
    refine ⟨⟨hname, ?_⟩, _, hwritten⟩
    rintro rfl
    cases hf
  | reserved r =>
    obtain rfl := List.mem_singleton.mp he
    exact ⟨_, hwritten⟩

/-- A change neither constructs a collection nor derives one. -/
theorem Changes.not_constructed (hchanges : s.Changes a c d k) {b r : Address}
    {given : Option Address} : Event.constructed b r given ∉ k := by
  cases hchanges <;> simp

/-- What has been registered last after a change. -/
theorem Changes.latest? (hchanges : s.Changes a c d k) {b : Address} (hba : b ≠ a)
    (name : String) : History.latest? (k ++ h) b name = h.latest? b name := by
  cases hchanges <;> simp [Event.registration?, Ne.symm hba]

/-- A registry in a state with a changed cell was one before, with the same parent. -/
theorem Changes.registry_before (hc : s.store.cell? a = some c) (hchanges : s.Changes a c d k)
    {b : Address} {r : Registry} (hr : (s.store.write a d).cell? b = some (.registry r)) :
    ∃ q, s.store.cell? b = some (.registry q) ∧ q.parent = r.parent := by
  rcases (Store.cell?_write_eq_some hc).mp hr with ⟨-, hold⟩ | ⟨rfl, rfl⟩
  · exact ⟨r, hold, rfl⟩
  · cases hchanges with
    | plain hcd hplain => cases hcd <;> cases hplain
    | registered q => exact ⟨q, hc, Registry.parent_insert.symm⟩
    | reserved q => exact ⟨q, hc, rfl⟩

/-- A collection in a state with a changed cell was one before, of the same family. -/
theorem Changes.collection_before (hc : s.store.cell? a = some c) (hchanges : s.Changes a c d k)
    {b : Address} {x : Collection} (hx : (s.store.write a d).cell? b = some (.collection x)) :
    ∃ y, s.store.cell? b = some (.collection y) ∧ y.registry = x.registry ∧
      y.fields = x.fields := by
  rcases (Store.cell?_write_eq_some hc).mp hx with ⟨-, hold⟩ | ⟨rfl, rfl⟩
  · exact ⟨x, hold, rfl, rfl⟩
  · cases hchanges with
    | plain hcd hplain => cases hcd <;> cases hplain
    | grown y => exact ⟨y, hc, rfl, rfl⟩

/-- A registry that has been changed has what has been registered last. -/
theorem Changes.table (hc : s.store.cell? a = some c) {r : Registry}
    (hchanges : s.Changes a c (.registry r) k) (hfollows : s.Follows h) (name : String) :
    r.get? name = History.latest? (k ++ h) a name := by
  cases hchanges with
  | plain hcd hplain => cases hcd <;> cases hplain
  | registered q =>
    have htable := hfollows.table hc name
    rw [Registry.get?_insert, List.singleton_append, History.latest?_cons, ← htable]
    simp only [Event.registration?, true_and]
    split <;> rfl
  | reserved q =>
    have htable := hfollows.table hc name
    rw [Registry.get?_reserve, List.singleton_append, History.latest?_cons, ← htable]
    rfl

/-- A state in which a cell has been changed follows what that means. -/
theorem Follows.write (hfollows : s.Follows h) (hc : s.store.cell? a = some c)
    (hchanges : s.Changes a c d k) : Follows { s with store := s.store.write a d } (k ++ h) := by
  have hcarries := hchanges.carries hc
  refine ⟨hfollows.unmarked, ?_, ?_, ?_, ?_, ?_, ?_, ?_⟩
  · intro b p r hr hp
    obtain ⟨q, hq, hqr⟩ := hchanges.registry_before hc hr
    exact hfollows.rooted hq (hqr.trans hp)
  · obtain ⟨r, hr, hnone⟩ := hfollows.shared
    obtain ⟨q, hq, hqr, -⟩ := hcarries.registry hr
    exact ⟨q, hq, hqr.trans hnone⟩
  · intro b r hr
    obtain ⟨q, hq, hqr⟩ := hchanges.registry_before hc hr
    exact hqr ▸ (hfollows.registry hq).imp_right (List.mem_append_right k)
  · intro b r hr name
    rcases (Store.cell?_write_eq_some hc).mp hr with ⟨hba, hold⟩ | ⟨rfl, rfl⟩
    · rw [hchanges.latest? hba name]
      exact hfollows.table hold name
    · exact hchanges.table hc hfollows name
  · intro b x hx
    obtain ⟨y, hy, hregistry, hfields⟩ := hchanges.collection_before hc hx
    obtain ⟨hnone, e, given, hdescends, hmade⟩ := hfollows.collection hy
    exact ⟨hfields ▸ hnone, e, given, hdescends.append k,
      List.mem_append_right k (hregistry ▸ hmade)⟩
  · intro e he
    rcases List.mem_append.mp he with hnew | hold
    · exact hchanges.shows hc hnew
    · exact (hfollows.events e hold).carry hcarries
  · intro b b' r given given' hb hb'
    have hold : ∀ {e : Address} {g : Option Address}, Event.constructed e r g ∈ k ++ h →
        Event.constructed e r g ∈ h := fun he =>
      (List.mem_append.mp he).resolve_left hchanges.not_constructed
    exact hfollows.own (hold hb) (hold hb')

/-- What happens to a state that follows a history makes it follow the longer one. -/
theorem Happens.follows (hst : s.Happens k t) (hfollows : s.Follows h) : t.Follows (k ++ h) := by
  induction hst generalizing h with
  | idle hstore =>
    obtain ⟨hunmarked, hrooted, hshared, hregistry, htable, hcollection, hevents, hown⟩ := hfollows
    refine ⟨?_, ?_, ?_, ?_, ?_, ?_, fun e he => (hevents e he).carry (carries_of_store hstore),
      hown⟩ <;> rw [hstore] <;> assumption
  | alloc hmakes => exact hfollows.alloc hmakes
  | write hc hchanges => exact hfollows.write hc hchanges
  | trans _ _ hst htu =>
    rw [List.append_assoc]
    exact htu (hst hfollows)

end State

end Recordset
