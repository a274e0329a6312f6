import Recordset.Proofs.Attribute
import Recordset.Proofs.Extends
import Recordset.Proofs.Path.Route
set_option autoImplicit false

/-!
# Paths that can not be followed

A path is followed to a value, or it is found missing where a segment leads nowhere.  It breaks
where a segment fails (`Path.StepFails`): a value that can not be a key is put to a mapping, or an
infinite number to a sequence as a position; a sequence fails when it is read, and not for want of
such a position; or an attribute fails to be looked up.  What the segments before it lead to is
looked up from one state to the next (`Path.FollowFails`).

`Path.execute_value_error_iff` is the main statement.
-/

namespace Recordset.Path

/-- Going one segment on from a value fails. -/
inductive StepFails (s : Store) : Value → Value → Error → Prop where
  /-- the segment can not be a key -/
  | key {v segment : Value} (hmapping : s.isMapping v = true) (hkey : s.isKey segment = false) :
    StepFails s v segment (.fault .type)
  /-- the segment is an infinite number, which is no position -/
  | position {v segment : Value} {e : Error}
    (hsequence : (s.sequence? v).isSome = true ∨ (s.unreadable? v).isSome = true)
    (hposition : position segment = .error e) : StepFails s v segment e
  /-- the sequence fails when it is read -/
  | element {v segment : Value} {kind : CustomKind} {i : Int}
    (hsequence : s.unreadable? v = some kind) (hposition : position segment = .ok (some i))
    (hfailure : kind.failure.isPosition = false) : StepFails s v segment kind.failure
  /-- the attribute fails to be looked up -/
  | lookup {v : Value} {name : String} {e : Error} (hsequence : s.unreadable? v = none)
    (hfails : s.AttributeFails v name e) : StepFails s v (.str name) e

/-- Following segments from a value comes to one that fails. -/
inductive FollowFails : State → List Value → Value → Error → Prop where
  | here {s : State} {v segment : Value} {rest : List Value} {e : Error}
    (h : StepFails s.store v segment e) : FollowFails s (segment :: rest) v e
  | later {s t : State} {v w segment : Value} {rest : List Value} {e : Error}
    (hstep : (step v segment).execute s = (.ok w, t)) (h : FollowFails t rest w e) :
    FollowFails s (segment :: rest) v e

/-- A path breaks: it can not be taken apart, or one of its segments fails. -/
inductive Breaks (s : State) (item path : Value) (e : Error) : Prop where
  | split (h : split path s.store = .error e)
  | follow {segments : List Value} (hsplit : Path.split path s.store = .ok segments)
    (h : FollowFails s segments item e)

/-! ## One segment -/

section

variable {s : State} {v segment : Value} {e : Error}

/-- What is read by position is no mapping. -/
theorem entries?_of_sequence {s : Store} {v : Value}
    (h : (s.sequence? v).isSome = true ∨ (s.unreadable? v).isSome = true) :
    s.entries? v = none := by
  unfold Store.sequence? Store.unreadable? at h
  unfold Store.entries?
  revert h
  cases s.view v with
  | none => simp
  | some c => cases c <;> simp

/-- A list is no sequence of a kind of its own. -/
theorem sequence?_of_unreadable? {s : Store} {v : Value} {kind : CustomKind}
    (h : s.unreadable? v = some kind) : s.sequence? v = none := by
  unfold Store.unreadable? at h
  unfold Store.sequence?
  revert h
  cases s.view v with
  | none => simp
  | some c => cases c <;> simp

/-- A lookup that fails is one in an object, a collection or a registry. -/
theorem shape_of_attributeFails {s : Store} {v : Value} {name : String}
    (h : s.AttributeFails v name e) :
    s.entries? v = none ∧ s.sequence? v = none ∧ v.isAbsent = false := by
  unfold Store.entries? Store.sequence?
  cases h with
  | @computed a kind fields _ _ hcell =>
    rw [show s.view (.ref a) = some (.custom kind fields) from hcell]
    exact ⟨rfl, rfl, rfl⟩
  | @extension a c _ hcell =>
    rw [show s.view (.ref a) = some (.collection c) from hcell]
    exact ⟨rfl, rfl, rfl⟩
  | @reserved a r hcell =>
    rw [show s.view (.ref a) = some (.registry r) from hcell]
    exact ⟨rfl, rfl, rfl⟩

/-- A name fails on shared values only. -/
theorem exists_ref_of_stepFails {s : Store} {name : String}
    (h : StepFails s v (.str name) e) : ∃ a, v = .ref a := by
  cases h with
  | key _ hkey => cases hkey
  | position _ hposition => cases hposition
  | element hsequence =>
    cases v with
    | ref a => exact ⟨a, rfl⟩
    | _ => cases hsequence
  | lookup _ hfails => cases hfails <;> exact ⟨_, rfl⟩

theorem execute_step_of_fails (h : StepFails s.store v segment e) :
    (step v segment).execute s = (.error e, s) := by
  unfold step
  rw [Action.execute_get_bind]
  dsimp only
  cases h with
  | key hmapping hkey =>
    obtain ⟨es, hes⟩ := Option.isSome_iff_exists.mp hmapping
    rw [hes]
    dsimp only
    rw [hkey]
    rfl
  | position hsequence hposition =>
    rw [entries?_of_sequence hsequence, hposition]
    cases hxs : s.store.sequence? v with
    | some xs => rfl
    | none =>
      obtain ⟨kind, hkind⟩ : ∃ kind, s.store.unreadable? v = some kind :=
        Option.isSome_iff_exists.mp (hsequence.resolve_left (by rw [hxs]; simp))
      rw [hkind]
      rfl
  | element hsequence hposition hfailure =>
    rw [entries?_of_sequence (.inr (by rw [hsequence]; rfl)), sequence?_of_unreadable? hsequence,
      hsequence, hposition]
    dsimp only
    rw [Action.execute_bind, Action.execute_ofExcept]
    dsimp only
    rw [hfailure]
    rfl
  | lookup hsequence hfails =>
    obtain ⟨hentries, hnone, hthere⟩ := shape_of_attributeFails hfails
    rw [hentries, hnone, hsequence, hthere]
    dsimp only
    rw [if_neg (by simp),
      Action.execute_bind_of_error (Action.execute_attribute?_of_fails hfails)]

/-- A segment leads to a value, or to what is missing, unless it fails. -/
theorem step_ok_or_fails (s : State) (v segment : Value) :
    (∃ w t, (step v segment).execute s = (.ok w, t)) ∨ ∃ e, StepFails s.store v segment e := by
  unfold step
  rw [Action.execute_get_bind]
  dsimp only
  cases hes : s.store.entries? v with
  | some es =>
    cases hkey : s.store.isKey segment with
    | true => exact .inl ⟨_, _, rfl⟩
    | false => exact .inr ⟨_, .key (by rw [Store.isMapping, hes]; rfl) hkey⟩
  | none =>
    cases hxs : s.store.sequence? v with
    | some xs =>
      cases hposition : position segment with
      | error e => exact .inr ⟨e, .position (.inl (by rw [hxs]; rfl)) hposition⟩
      | ok i =>
        refine .inl ?_
        dsimp only
        rw [Action.execute_bind, Action.execute_ofExcept]
        cases i <;> exact ⟨_, _, rfl⟩
    | none =>
      cases hkind : s.store.unreadable? v with
      | some kind =>
        cases hposition : position segment with
        | error e => exact .inr ⟨e, .position (.inr (by rw [hkind]; rfl)) hposition⟩
        | ok i =>
          cases i with
          | none => exact .inl ⟨_, _, rfl⟩
          | some i =>
            cases hfailure : kind.failure.isPosition with
            | true =>
              refine .inl ⟨.missing, s, ?_⟩
              dsimp only
              rw [Action.execute_bind, Action.execute_ofExcept]
              exact congrArg (Action.execute · s) (if_pos hfailure)
            | false => exact .inr ⟨_, .element hkind hposition hfailure⟩
      | none =>
        dsimp only
        split_ifs
        · exact .inl ⟨_, _, rfl⟩
        · cases segment with
          | str name =>
            refine (Action.attribute?_ok_or_fails s v name).imp ?_ fun ⟨e, h⟩ =>
              ⟨e, .lookup hkind h⟩
            rintro ⟨o, t, hrun⟩
            exact ⟨o.getD .missing, t, by rw [Action.execute_bind_of_ok hrun]; rfl⟩
          | _ => exact .inl ⟨_, _, rfl⟩

end

/-! ## Many segments -/

/-- Where a segment fails, no value comes after it. -/
theorem follow_of_fails {s : State} {segments : List Value} {v : Value} {e : Error}
    (h : FollowFails s segments v e) : ∃ t, (follow segments v).execute s = (.error e, t) := by
  induction h with
  | here h => exact ⟨_, Action.execute_bind_of_error (execute_step_of_fails h)⟩
  | @later s t v w segment rest e hstep h ih =>
    obtain ⟨u, hrun⟩ := ih
    refine ⟨u, ?_⟩
    rw [follow, Action.execute_bind_of_ok hstep]
    split
    · -- from what is missing nothing fails
      cases rest with
      | nil => cases h
      | cons => cases hrun
    · exact hrun

/-- Segments lead to a value, or to what is missing, unless one of them fails. -/
theorem follow_ok_or_fails (segments : List Value) : ∀ (s : State) (v : Value),
    (∃ w t, (follow segments v).execute s = (.ok w, t)) ∨ ∃ e, FollowFails s segments v e := by
  induction segments with
  | nil => exact fun s v => .inl ⟨v, s, rfl⟩
  | cons segment rest ih =>
    intro s v
    rcases step_ok_or_fails s v segment with ⟨w, t, hstep⟩ | ⟨e, h⟩
    · rcases ih t w with ⟨x, u, hrest⟩ | ⟨e, h⟩
      · refine .inl ?_
        rw [follow, Action.execute_bind_of_ok hstep]
        split
        · exact ⟨_, _, rfl⟩
        · exact ⟨x, u, hrest⟩
      · exact .inr ⟨e, .later hstep h⟩
    · exact .inr ⟨e, .here h⟩

/-! ## Main statement -/

section

variable {s : State} {item path : Value} {e : Error}

/-- Where a path breaks, no value and no default is given. -/
theorem resolve_of_breaks (h : Breaks s item path e) (default : Value) :
    ∃ t, (resolve item path default).execute s = (.error e, t) := by
  unfold resolve
  rw [Action.execute_bind, Action.execute_look]
  cases h with
  | split h => exact ⟨s, by rw [h]⟩
  | @follow segments hsplit h =>
    obtain ⟨t, hrun⟩ := follow_of_fails h
    refine ⟨t, ?_⟩
    rw [hsplit]
    cases segments with
    | nil => cases h
    | cons => exact Action.execute_bind_of_error hrun

/-- What is at a path is given, or a default for it, unless the path breaks. -/
theorem resolve_ok_or_breaks (s : State) (item path default : Value) :
    (∃ w t, (resolve item path default).execute s = (.ok w, t)) ∨ ∃ e, Breaks s item path e := by
  unfold resolve
  rw [Action.execute_bind, Action.execute_look]
  cases hsplit : split path s.store with
  | error e => exact .inr ⟨e, .split hsplit⟩
  | ok segments =>
    cases segments with
    | nil => exact .inl ⟨item, s, rfl⟩
    | cons segment rest =>
      refine (follow_ok_or_fails (segment :: rest) s item).imp ?_ fun ⟨e, h⟩ =>
        ⟨e, .follow hsplit h⟩
      rintro ⟨w, t, hrun⟩
      dsimp only
      rw [Action.execute_bind_of_ok hrun]
      cases w <;> exact ⟨_, _, rfl⟩

theorem value_ok_or_breaks (s : State) (item path : Value) :
    (∃ v t, (value item path).execute s = (.ok v, t)) ∨ ∃ e, Breaks s item path e :=
  resolve_ok_or_breaks s item path .missing

/-- Following a path for a value or a default fails exactly where the path breaks. -/
theorem execute_resolve_error_iff (default : Value) :
    (∃ t, (resolve item path default).execute s = (.error e, t)) ↔ Breaks s item path e := by
  constructor
  · rintro ⟨t, hrun⟩
    rcases resolve_ok_or_breaks s item path default with ⟨w, u, hok⟩ | ⟨f, h⟩
    · rw [hok] at hrun
      cases hrun
    · obtain ⟨u, hfailed⟩ := resolve_of_breaks h default
      rw [hrun] at hfailed
      cases hfailed
      exact h
  · exact fun h => resolve_of_breaks h default

theorem execute_value_error_iff :
    (∃ t, (value item path).execute s = (.error e, t)) ↔ Breaks s item path e :=
  execute_resolve_error_iff .missing

/-! ## Paths that break nowhere -/

/-- A path breaks at none of some values, neither in a state nor in any that extends it. -/
def Unbroken (s : State) (xs : List Value) (path : Value) : Prop :=
  ∀ t, s.Extends t → ∀ x ∈ xs, ∀ e, ¬ Breaks t x path e

theorem Unbroken.extends {t : State} {xs : List Value} (h : Unbroken s xs path)
    (hst : s.Extends t) : Unbroken t xs path := fun u hu => h u (hst.trans hu)

/-- The empty path breaks nowhere. -/
theorem unbroken_itself (s : State) (xs : List Value) : Unbroken s xs (.str "") := by
  rintro t - x - e (h | ⟨hsplit, h⟩)
  · cases h
  · cases hsplit
    cases h

/-- A path of one name breaks nowhere at values that are not shared. -/
theorem unbroken_of_name {s : State} {xs : List Value} {path name : String}
    (hroute : route path = [name]) (hxs : ∀ x ∈ xs, ∀ a, x ≠ .ref a) :
    Unbroken s xs (.str path) := by
  rintro t - x hx e (h | ⟨hsplit, h⟩)
  · cases h
  · rw [split_eq, hroute] at hsplit
    cases hsplit
    cases h with
    | here h =>
      obtain ⟨a, ha⟩ := exists_ref_of_stepFails h
      exact hxs x hx a ha
    | later _ h => cases h

theorem Unbroken.value_ok {t : State} {xs : List Value} {x : Value} (h : Unbroken s xs path)
    (ht : s.Extends t) (hx : x ∈ xs) : ∃ v u, (value x path).execute t = (.ok v, u) :=
  (value_ok_or_breaks t x path).resolve_right fun ⟨e, hbreaks⟩ => h t ht x hx e hbreaks

end

end Recordset.Path
