import Recordset.Proofs.Collection.Selection
import Recordset.Proofs.Entries
import Recordset.Proofs.Path.Route
import Recordset.Proofs.Query.Testing
set_option autoImplicit false

/-!
# Dropping the field at a path

The names of a path lead through mappings to a value (`Path.Leads`) when each mapping on the way
holds the next name.  Dropping the field there copies these mappings; nothing else is made or
changed, so the names are followed in the copy as they are in the item.

The rest of a path is written out and read again before it is followed into a mapping.  What is left
of a path that ends in an empty name, or in the name for the value itself, then names the mapping
that it starts from, and the field stays (`Path.EndsInItself`).

`Path.lacks_iff_not_endsInItself` is the main statement.
-/

namespace Recordset.Path

/-! ## The names of a path -/

/-- After others, a path ends in a name that stands for the value itself when nothing comes
before it. -/
def EndsInItself (names : List String) : Prop :=
  1 < names.length ∧ (names.getLast? = some "" ∨ names.getLast? = some itself)

instance (names : List String) : Decidable (EndsInItself names) :=
  inferInstanceAs (Decidable (_ ∧ _))

variable {s t u : State} {item v : Value} {name : String} {names : List String}

theorem isWhole_cons : isWhole ((name :: names).map .str) = true ↔
    names = [] ∧ (name = "" ∨ name = itself) := by
  cases names <;> simp [isWhole]

/-- A path ends in itself when the rest of it does, or is a name for the value itself. -/
theorem endsInItself_cons (hnames : names ≠ []) :
    EndsInItself (name :: names) ↔ isWhole (names.map .str) = true ∨ EndsInItself names := by
  obtain ⟨next, rest, rfl⟩ := List.exists_cons_of_ne_nil hnames
  rw [isWhole_cons]
  cases rest <;> simp [EndsInItself]

/-! ## Following names through mappings -/

/-- Each value that segments meet before the last one is a mapping. -/
def ThroughMappings (s : Store) : List Value → Value → Prop
  | [], _ => True
  | segment :: rest, item =>
    ∃ es, s.entries? item = some es ∧
      (rest ≠ [] → ∀ next, Entries.find? s es segment = some next → ThroughMappings s rest next)

/-- Names lead through mappings to a value that is there. -/
inductive Leads (s : Store) : List String → Value → Value → Prop where
  | last {name : String} {item v : Value} {es : Entries} (hes : s.entries? item = some es)
      (hfound : Entries.find? s es (.str name) = some v) (hthere : v ≠ .missing) :
      Leads s [name] item v
  | next {name : String} {names : List String} {item inner v : Value} {es : Entries}
      (hes : s.entries? item = some es) (hfound : Entries.find? s es (.str name) = some inner)
      (hthere : inner ≠ .missing) (hrest : Leads s names inner v) : Leads s (name :: names) item v

theorem Leads.ne_nil (h : Leads s.store names item v) : names ≠ [] := by
  cases h <;> exact List.cons_ne_nil _ _

theorem Leads.ne_missing (h : Leads s.store names item v) : v ≠ .missing := by
  induction h with
  | last _ _ hthere => exact hthere
  | next _ _ _ _ ih => exact ih

/-- A mapping has the same entries later. -/
theorem entries?_later (h : s.KeepsMappings t) {es : Entries}
    (hes : s.store.entries? item = some es) : t.store.entries? item = some es := by
  refine (h.entries? ?_).trans hes
  rcases Store.view_of_entries? hes with hview | hview
  · exact Store.knows_of_view hview
  · exact Store.knows_of_view hview

/-- Names lead to the same value later. -/
theorem Leads.later (h : Leads s.store names item v) (ht : s.KeepsMappings t) :
    Leads t.store names item v := by
  induction h with
  | last hes hfound hthere =>
    rw [Entries.find?_str, ← Entries.find?_str t.store] at hfound
    exact .last (entries?_later ht hes) hfound hthere
  | next hes hfound hthere _ ih =>
    rw [Entries.find?_str, ← Entries.find?_str t.store] at hfound
    exact .next (entries?_later ht hes) hfound hthere ih

theorem execute_step (name : String) {es : Entries} (hes : s.store.entries? item = some es) :
    (step item (.str name)).execute s =
      (.ok ((Entries.find? s.store es (.str name)).getD .missing), s) := by
  unfold step
  rw [Action.execute_get_bind]
  dsimp only
  rw [hes]
  rfl

/-- A name that leads to a value is followed to it. -/
theorem follow_cons {next : Value} (hstep : (step item (.str name)).execute s = (.ok next, s))
    (hthere : next ≠ .missing) :
    (follow ((name :: names).map .str) item).execute s =
      (follow (names.map .str) next).execute s := by
  rw [List.map_cons, follow, Action.execute_bind_of_ok hstep]
  split
  · exact absurd rfl hthere
  · rfl

theorem follow_cons_missing (hstep : (step item (.str name)).execute s = (.ok .missing, s)) :
    (follow ((name :: names).map .str) item).execute s = (.ok .missing, s) := by
  rw [List.map_cons, follow, Action.execute_bind_of_ok hstep]
  rfl

/-- A name that a mapping holds leads to what it holds there. -/
theorem execute_step_of_found {es : Entries} (hes : s.store.entries? item = some es)
    (hfound : Entries.find? s.store es (.str name) = some v) :
    (step item (.str name)).execute s = (.ok v, s) := by
  rw [execute_step _ hes, hfound]
  rfl

theorem Leads.follow (h : Leads s.store names item v) :
    (follow (names.map .str) item).execute s = (.ok v, s) := by
  induction h with
  | last hes hfound hthere =>
    rw [follow_cons (execute_step_of_found hes hfound) hthere]
    rfl
  | next hes hfound hthere _ ih =>
    rw [follow_cons (execute_step_of_found hes hfound) hthere]
    exact ih

/-- Names that are followed to a value that is there lead to it, when what they meet before the last
one are mappings. -/
theorem leads_of_follow (hne : names ≠ []) (hmaps : ThroughMappings s.store (names.map .str) item)
    (hfollow : (Path.follow (names.map .str) item).execute s = (.ok v, t))
    (hthere : v ≠ .missing) : Leads s.store names item v := by
  induction names generalizing item with
  | nil => exact absurd rfl hne
  | cons name rest ih =>
    obtain ⟨es, hes, hrest⟩ := hmaps
    cases hfound : Entries.find? s.store es (.str name) with
    | none =>
      have hstep := execute_step name hes
      rw [hfound] at hstep
      rw [follow_cons_missing hstep] at hfollow
      cases hfollow
      exact absurd rfl hthere
    | some inner =>
      have hstep := execute_step_of_found hes hfound
      by_cases hinner : inner = .missing
      · subst hinner
        rw [follow_cons_missing hstep] at hfollow
        cases hfollow
        exact absurd rfl hthere
      · rw [follow_cons hstep hinner] at hfollow
        by_cases hnil : rest = []
        · subst hnil
          cases hfollow
          exact .last hes hfound hthere
        · exact .next hes hfound hinner
            (ih hnil (hrest (by simpa using hnil) inner hfound) hfollow)

/-! ## Copies without a field -/

/-- Names can be dropped from anything. -/
theorem withoutAt_ok (names : List String) : ∀ (item : Value) (s : State),
    ∃ w t, (withoutAt (names.map .str) item).execute s = (.ok w, t) ∧ s.Grows t := by
  induction names with
  | nil => exact fun item s => ⟨item, s, rfl, .refl s⟩
  | cons name names ih =>
    intro item s
    rw [List.map_cons, withoutAt, Action.execute_get_bind]
    dsimp only
    cases s.store.entries? item with
    | none => exact ⟨item, s, rfl, .refl s⟩
    | some es =>
      dsimp only
      rw [isKey_str]
      cases Entries.find? s.store es (.str name) with
      | none => exact ⟨item, s, rfl, .refl s⟩
      | some inner =>
        dsimp only
        rw [if_neg (by decide)]
        split
        · exact ⟨_, _, rfl, State.grows_alloc s _⟩
        · split
          · exact ⟨_, _, rfl, State.grows_alloc s _⟩
          · obtain ⟨w, t, hrun, ht⟩ := ih inner s
            rw [Action.execute_bind_of_ok hrun]
            exact ⟨_, _, rfl, ht.trans (State.grows_alloc t _)⟩

/-- Without its last name a mapping is copied. -/
theorem withoutAt_last {es : Entries} (hes : s.store.entries? item = some es)
    (hfound : Entries.find? s.store es (.str name) = some v) :
    (withoutAt [.str name] item).execute s =
      (Action.make (.dict (Entries.erase s.store es (.str name)))).execute s := by
  rw [withoutAt, Action.execute_get_bind]
  dsimp only
  rw [hes]
  dsimp only
  rw [isKey_str, hfound]
  rfl

/-- The mapping that names go on from is replaced in the copy. -/
theorem withoutAt_next {es : Entries} (hnames : names ≠ [])
    (hes : s.store.entries? item = some es)
    (hfound : Entries.find? s.store es (.str name) = some v) :
    (withoutAt ((name :: names).map .str) item).execute s =
      (do
        let changed ← if isWhole (names.map .str) then pure v else withoutAt (names.map .str) v
        let u ← get
        Action.make (.dict (Entries.insert u.store es (.str name) changed)) : Action Value).execute
          s := by
  rw [List.map_cons, withoutAt, Action.execute_get_bind]
  dsimp only
  rw [hes]
  dsimp only
  rw [isKey_str, hfound]
  dsimp only
  rw [if_neg (by decide), if_neg (by simpa using hnames)]

/-- A mapping that has just been made has its entries from then on. -/
theorem entries?_made {es : Entries}
    (h : State.KeepsMappings { s with store := (s.store.alloc (.dict es)).2 } u) :
    u.store.entries? (.ref ⟨s.store.size⟩) = some es :=
  Store.entries?_of_dict (h.dicts _ _ (s.store.cell?_alloc _))

/-- From a state on, names that are followed lead nowhere, unless they end in a name for the value
itself. -/
def Stripped (names : List String) (w : Value) (t : State) : Prop :=
  ∀ u, t.KeepsMappings u → ∃ left, (follow (names.map .str) w).execute u = (.ok left, u) ∧
    (left = .missing ↔ ¬ EndsInItself names)

theorem Stripped.later {w : Value} (h : Stripped names w t) (hu : t.KeepsMappings u) :
    Stripped names w u :=
  fun _ hlater => h _ (hu.trans hlater)

/-- The copy without a field is stripped of it. -/
theorem Leads.withoutAt (h : Leads s.store names item v) :
    ∃ b t, (withoutAt (names.map .str) item).execute s = (.ok (.ref b), t) ∧ s.Grows t ∧
      Stripped names (.ref b) t := by
  induction h with
  | @last name item v es hes hfound hthere =>
    refine ⟨_, _, withoutAt_last hes hfound, State.grows_alloc s _, fun u hu => ?_⟩
    have hstep := execute_step name (entries?_made hu)
    rw [Entries.find?_erase_str] at hstep
    refine ⟨.missing, follow_cons_missing hstep, ?_⟩
    simp [EndsInItself]
  | @next name names item inner v es hes hfound hthere hrest ih =>
    have hnames := hrest.ne_nil
    unfold Stripped
    rw [withoutAt_next hnames hes hfound, endsInItself_cons hnames]
    have hcopy : ∀ (changed : Value) (t u : State),
        State.KeepsMappings { t with store :=
          (t.store.alloc (.dict (Entries.insert t.store es (.str name) changed))).2 } u →
        (step (.ref ⟨t.store.size⟩) (.str name)).execute u = (.ok changed, u) :=
      fun changed t u hu =>
        execute_step_of_found (entries?_made hu) (Entries.find?_insert_str ..)
    cases hwhole : isWhole (names.map .str) with
    | true =>
      -- the rest names the inner mapping, which stays in its place
      rw [if_pos rfl]
      have hgrows := State.grows_alloc s (.dict (Entries.insert s.store es (.str name) inner))
      refine ⟨_, _, rfl, hgrows, fun u hu => ⟨v, ?_, ?_⟩⟩
      · rw [follow_cons (hcopy inner s u hu) hthere]
        exact (hrest.later (hgrows.keepsMappings.trans hu)).follow
      · simp [hrest.ne_missing]
    | false =>
      obtain ⟨b, t, hrun, ht, hleft⟩ := ih
      have hgrows := State.grows_alloc t (.dict (Entries.insert t.store es (.str name) (.ref b)))
      rw [if_neg Bool.false_ne_true, Action.execute_bind_of_ok hrun]
      refine ⟨_, _, rfl, ht.trans hgrows, fun u hu => ?_⟩
      obtain ⟨left, hfollow, hiff⟩ := hleft.later hgrows.keepsMappings u hu
      refine ⟨left, ?_, by simpa using hiff⟩
      rw [follow_cons (hcopy (.ref b) t u hu) (by simp)]
      exact hfollow

/-! ## Main statement -/

/-- The value at a path is the one that its names are followed to. -/
theorem execute_value {path : String} (hpath : path ≠ "") (hself : path ≠ itself)
    (hfollow : (follow ((Path.names path).map .str) item).execute s = (.ok v, t)) :
    (value item (.str path)).execute s = (.ok v, t) := by
  rw [value_eq_follow, route_eq hpath hself]
  exact hfollow

/-- An item has a path exactly when its names are followed to a value that is there. -/
theorem execute_has {path : String} (hpath : path ≠ "") (hself : path ≠ itself)
    (hfollow : (follow ((Path.names path).map .str) item).execute s = (.ok v, t)) :
    (has item (.str path)).execute s = (.ok !v.isMissing, t) :=
  execute_has_of_value (execute_value hpath hself hfollow)

theorem execute_without {path : String} (hpath : path ≠ "") (hself : path ≠ itself) :
    (without item (.str path)).execute s =
      (withoutAt ((Path.names path).map .str) item).execute s := by
  rw [without_eq_withoutAt, route_eq hpath hself]

/-- The names of a path that an item has lead to a value of it. -/
theorem leads_of_has {path : String} (hpath : path ≠ "") (hself : path ≠ itself)
    (hmaps : ThroughMappings s.store (segments path) item)
    (hhas : ((has item (.str path)).execute s).1 = .ok true) :
    ∃ v, Leads s.store (Path.names path) item v := by
  obtain ⟨v, t, hvalue, hgiven⟩ : ∃ v t, (value item (.str path)).execute s = (.ok v, t) ∧
      (pure !v.isMissing : Action Bool).execute t =
        (.ok true, ((has item (.str path)).execute s).2) :=
    Action.execute_bind_ok (Prod.ext hhas rfl)
  have hfollow : (follow ((Path.names path).map .str) item).execute s = (.ok v, t) := by
    rwa [value_eq_follow, route_eq hpath hself] at hvalue
  rw [segments_eq hpath hself] at hmaps
  refine ⟨v, leads_of_follow (names_ne_nil path) hmaps hfollow ?_⟩
  rintro rfl
  cases hgiven

/-- What is stripped of the names of a path has the path only when it ends in itself. -/
theorem Stripped.has {path : String} (hpath : path ≠ "") (hself : path ≠ itself)
    (h : Stripped (Path.names path) item t) (hu : t.KeepsMappings u) :
    ∃ left, (Path.has item (.str path)).execute u = (.ok left, u) ∧
      (left = false ↔ ¬ EndsInItself (Path.names path)) := by
  obtain ⟨v, hfollow, hiff⟩ := h u hu
  refine ⟨_, execute_has hpath hself hfollow, ?_⟩
  rw [← hiff]
  cases v <;> simp [Value.isMissing]

end Recordset.Path

namespace Recordset.Collection

variable {a : Address} {c : Collection} {xs : List Value} {s t : State}

/-- Changing the items of a collection changes no mapping. -/
theorem keepsMappings_setItems (hholds : s.store.Holds a c xs) {ys : List Value}
    (hrun : (setItems a ys).execute s = (.ok ⟨⟩, t)) : s.KeepsMappings t := by
  unfold setItems Action.fillList at hrun
  rw [Action.execute_bind_of_ok (execute_read hholds.cell), bind_assoc,
    Action.execute_bind_of_ok (Action.execute_cell hholds.list)] at hrun
  cases hrun
  have hfilled := State.keepsMappings_write hholds.list (.list xs ys) fun _ h => by cases h
  have hcell := hfilled.evolves.collection hholds.cell
  obtain ⟨d, hd⟩ := hcell
  exact hfilled.trans (State.keepsMappings_write hd (.collection d _) fun _ h => by cases h)

/-- Fields are dropped from a value one after another. -/
theorem execute_withoutAll_cons {path item w : Value} {rest : List Value}
    (hrun : (Path.without item path).execute s = (.ok w, t)) :
    (withoutAll (path :: rest) item).execute s = (withoutAll rest w).execute t := by
  rw [withoutAll, Action.execute_bind_of_ok hrun]

/-- Forgetting fields drops them from every item, one item after another.  What dropping them makes
of an item is said by a relation `R` that goes on to hold as long as no mapping is changed. -/
theorem forget_each (keys : List Value) {R : Nat → State → Value → Prop}
    (hholds : s.store.Holds a c xs)
    (hlater : ∀ i t u y, R i t y → t.KeepsMappings u → R i u y)
    (hitem : ∀ i (hi : i < xs.length) t, s.Grows t → ∃ y u,
      (withoutAll (namedPaths s.store keys) xs[i]).execute t = (.ok y, u) ∧ t.Grows u ∧ R i u y) :
    ∃ d t ys, (forget a keys).execute s = (.ok (.ref a), t) ∧ t.store.Holds a d ys ∧
      s.KeepsMappings t ∧ ys.length = xs.length ∧ ∀ i (hi : i < ys.length), R i t ys[i] := by
  have hfold : ∃ ys t, (fold a [] fun changed item _ => do
        return changed ++ [← withoutAll (namedPaths s.store keys) item]).execute s = (.ok ys, t) ∧
      s.Grows t ∧ ys.length = xs.length ∧ ∀ i (hi : i < ys.length), R i t ys[i] := by
    refine fold_ok (c := c) (fun i (changed : List Value) u => s.Grows u ∧ changed.length = i ∧
      ∀ j (hj : j < changed.length), R j u changed[j])
      (fun i changed u h => hholds.extends h.1.extends)
      ⟨.refl s, rfl, fun j hj => absurd hj (Nat.not_lt_zero j)⟩ ?_
    rintro i hi changed u ⟨hu, hlength, hleft⟩
    obtain ⟨y, t, hrun, ht, hy⟩ := hitem i hi u hu
    refine ⟨changed ++ [y], t, ?_, hu.trans ht, by simp [hlength], fun j hj => ?_⟩
    · rw [Action.execute_bind_of_ok hrun]
      rfl
    · rcases Nat.lt_or_ge j changed.length with hlt | hge
      · rw [List.getElem_append_left hlt]
        exact hlater _ _ _ _ (hleft j hlt) ht.keepsMappings
      · obtain rfl : j = i := by
          rw [List.length_append, List.length_singleton] at hj
          omega
        rw [List.getElem_append_right hge, List.getElem_singleton]
        exact hy
  obtain ⟨ys, t, hrun, ht, hlength, hleft⟩ := hfold
  have hthere := hholds.extends ht.extends
  obtain ⟨d, u, hset, hd⟩ := setItems_ok hthere ys
  have hu := keepsMappings_setItems hthere hset
  refine ⟨d, u, ys, ?_, hd, ht.keepsMappings.trans hu, hlength,
    fun i hi => hlater _ _ _ _ (hleft i hi) hu⟩
  unfold forget
  rw [Action.execute_get_bind]
  dsimp only
  rw [Action.execute_bind_of_ok hrun, Action.execute_bind_of_ok hset]
  rfl

/-- Forgetting a path drops it from every item. -/
theorem forget_ok {path : String} (hpath : path ≠ "") (hself : path ≠ Path.itself)
    (hholds : s.store.Holds a c xs) :
    ∃ d t ys, (forget a [.str path]).execute s = (.ok (.ref a), t) ∧ t.store.Holds a d ys ∧
      ys.length = xs.length ∧ ∀ i (hi : i < xs.length) (hj : i < ys.length) v,
        Path.Leads s.store (Path.names path) xs[i] v → Path.Stripped (Path.names path) ys[i] t := by
  obtain ⟨d, t, ys, hrun, hd, -, hlength, hstripped⟩ := forget_each [.str path] hholds
    (R := fun i u y => ∀ (hi : i < xs.length) v,
      Path.Leads s.store (Path.names path) xs[i] v → Path.Stripped (Path.names path) y u)
    (fun i t u y h hu hi v hleads => (h hi v hleads).later hu) fun i hi u hu => by
      obtain ⟨y, t, hrun, ht⟩ := Path.withoutAt_ok (Path.names path) xs[i] u
      refine ⟨y, t, execute_withoutAll_cons ((Path.execute_without hpath hself).trans hrun), ht,
        fun _ v hleads => ?_⟩
      obtain ⟨b, t', hrun', -, hdone⟩ := (hleads.later hu.keepsMappings).withoutAt
      rw [hrun] at hrun'
      cases hrun'
      exact hdone
  exact ⟨d, t, ys, hrun, hd, hlength, fun i hi hj v => hstripped i hj hi v⟩

end Recordset.Collection

namespace Recordset.Path

/-- Let an item have a path, and let the values on the way to it be mappings.  Then the copy of the
item without the field there lacks the path, and so does the item that the collection holds in its
place when the path has been forgotten; unless the path ends in itself, when both still have it. -/
theorem lacks_iff_not_endsInItself {s : State} {path : String} (hpath : path ≠ "")
    (hself : path ≠ itself) :
    (∀ item, ThroughMappings s.store (segments path) item →
      ((has item (.str path)).execute s).1 = .ok true →
      ∃ w t left, (without item (.str path)).execute s = (.ok w, t) ∧ s.Grows t ∧
        (has w (.str path)).execute t = (.ok left, t) ∧
        (left = false ↔ ¬ EndsInItself (names path))) ∧
    (∀ a c xs, s.store.Holds a c xs →
      ∃ d t ys, (Collection.forget a [.str path]).execute s = (.ok (.ref a), t) ∧
        t.store.Holds a d ys ∧ ys.length = xs.length ∧
        ∀ i (hi : i < xs.length) (hj : i < ys.length),
          ThroughMappings s.store (segments path) xs[i] →
          ((has xs[i] (.str path)).execute s).1 = .ok true →
          ∃ left, (has ys[i] (.str path)).execute t = (.ok left, t) ∧
            (left = false ↔ ¬ EndsInItself (names path))) := by
  refine ⟨fun item hmaps hhas => ?_, fun a c xs hholds => ?_⟩
  · obtain ⟨v, hleads⟩ := leads_of_has hpath hself hmaps hhas
    obtain ⟨b, t, hrun, ht, hstripped⟩ := hleads.withoutAt
    obtain ⟨left, hleft⟩ := hstripped.has hpath hself (.refl t)
    exact ⟨_, t, left, (execute_without hpath hself).trans hrun, ht, hleft⟩
  · obtain ⟨d, t, ys, hrun, hd, hlength, hstripped⟩ := Collection.forget_ok hpath hself hholds
    refine ⟨d, t, ys, hrun, hd, hlength, fun i hi hj hmaps hhas => ?_⟩
    obtain ⟨v, hleads⟩ := leads_of_has hpath hself hmaps hhas
    exact (hstripped i hi hj v hleads).has hpath hself (.refl t)

/-- A collection of one record with a field of two fields, one of them under the empty name. -/
def nestedRecord : State where
  store := { cells := #[
    .policy {},
    .registry {},
    .generator ⟨0⟩,
    .dict [],
    .list [.ref ⟨6⟩],
    .collection
      { list := ⟨4⟩, validators := ⟨3⟩, policy := ⟨0⟩, registry := ⟨1⟩, generator := ⟨2⟩ },
    .dict [(.str "a", .ref ⟨7⟩)],
    .dict [(.str "b", .int 1), (.str "", .int 2)]] }

/-- The record loses a field of its field, also in the collection. -/
theorem lacks_nestedRecord :
    (ThroughMappings nestedRecord.store (segments "a.b") (.ref ⟨6⟩) ∧
      ((has (.ref ⟨6⟩) (.str "a.b")).execute nestedRecord).1 = .ok true) ∧
    (∃ w t, (without (.ref ⟨6⟩) (.str "a.b")).execute nestedRecord = (.ok w, t) ∧
      (has w (.str "a.b")).execute t = (.ok false, t)) ∧
    ∃ d t y, (Collection.forget ⟨5⟩ [.str "a.b"]).execute nestedRecord = (.ok (.ref ⟨5⟩), t) ∧
      t.store.Holds ⟨5⟩ d [y] ∧ (has y (.str "a.b")).execute t = (.ok false, t) := by
  have hmaps : ThroughMappings nestedRecord.store (segments "a.b") (.ref ⟨6⟩) := by
    refine ⟨_, rfl, fun _ next hnext => ?_⟩
    cases hnext
    exact ⟨_, rfl, fun hrest => absurd rfl hrest⟩
  have hhas : ((has (.ref ⟨6⟩) (.str "a.b")).execute nestedRecord).1 = .ok true := rfl
  have hends : ¬ EndsInItself (names "a.b") := by decide +kernel
  obtain ⟨hwithout, hforget⟩ :=
    @lacks_iff_not_endsInItself nestedRecord "a.b" (by decide) (by decide)
  refine ⟨⟨hmaps, hhas⟩, ?_, ?_⟩
  · obtain ⟨w, t, left, hrun, -, hleft, hiff⟩ := hwithout _ hmaps hhas
    rw [hiff.mpr hends] at hleft
    exact ⟨w, t, hrun, hleft⟩
  · obtain ⟨d, t, ys, hrun, hd, hlength, hlacks⟩ :=
      hforget ⟨5⟩ _ [.ref ⟨6⟩] ⟨rfl, rfl⟩
    obtain ⟨y, rfl⟩ := List.length_eq_one_iff.mp hlength
    obtain ⟨left, hleft, hiff⟩ := hlacks 0 Nat.one_pos Nat.one_pos hmaps hhas
    rw [hiff.mpr hends] at hleft
    exact ⟨d, t, y, hrun, hd, hleft⟩

/-- The field under the empty name stays, also in the collection. -/
theorem has_nestedRecord :
    (ThroughMappings nestedRecord.store (segments "a.") (.ref ⟨6⟩) ∧
      ((has (.ref ⟨6⟩) (.str "a.")).execute nestedRecord).1 = .ok true) ∧
    (∃ w t, (without (.ref ⟨6⟩) (.str "a.")).execute nestedRecord = (.ok w, t) ∧
      ((has w (.str "a.")).execute t).1 = .ok true) ∧
    ∃ d t y, (Collection.forget ⟨5⟩ [.str "a."]).execute nestedRecord = (.ok (.ref ⟨5⟩), t) ∧
      t.store.Holds ⟨5⟩ d [y] ∧ ((has y (.str "a.")).execute t).1 = .ok true := by
  refine ⟨⟨⟨_, rfl, fun _ next hnext => ?_⟩, rfl⟩, ⟨_, _, rfl, rfl⟩, _, _, _, rfl, ⟨rfl, rfl⟩, rfl⟩
  cases hnext
  exact ⟨_, rfl, fun hrest => absurd rfl hrest⟩

end Recordset.Path
