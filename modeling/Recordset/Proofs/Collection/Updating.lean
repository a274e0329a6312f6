import Recordset.Proofs.Collection.Selection
import Recordset.Proofs.Ownership.Reachable
import Recordset.Proofs.Patching
import Recordset.Proofs.Query.Malformed
set_option autoImplicit false

/-!
# Updates that fail

An update deals with the items one after another and puts what it makes of each one into the list at
once.  So what has been put in the place of the first items (`Collection.Updates`) stays when one
further on can not be patched, or when the query or the callback fails there.  A failed update has
changed nothing exactly when each item that it has dealt with by then was put in its own place and
had all that the patch would give it (`Store.Fits`).

`Collection.update_untouched_iff` is the main statement.
-/

namespace Recordset

open Recordset.Action

/-! ## Records -/

namespace Store

/-- A mapping or an object. -/
inductive IsRecord (s : Store) : Value → Prop where
  | dict {a : Address} {es : Entries} (h : s.cell? a = some (.dict es)) : IsRecord s (.ref a)
  | frozen {a : Address} {es : Entries} (h : s.cell? a = some (.frozen es)) : IsRecord s (.ref a)
  | object {a : Address} {fs : List (String × Value)} (h : s.cell? a = some (.object fs)) :
    IsRecord s (.ref a)

/-- A value that is no mapping and has no attributes, so that nothing can be merged into it. -/
structure Refuses (s : Store) (v : Value) : Prop where
  known : s.Knows v
  entries : s.entries? v = none
  attributes : hasAttributes s v = false

/-- A record that can be changed and has all that a patch would give it. -/
inductive Fits (s : Store) (patch : List (String × Value)) : Value → Prop where
  | dict {a : Address} {es : Entries} (h : s.cell? a = some (.dict es))
    (hsame : es.patched patch = es) : Fits s patch (.ref a)
  | object {a : Address} {fs : List (String × Value)} (h : s.cell? a = some (.object fs))
    (hsame : patchedFields fs patch = fs) : Fits s patch (.ref a)

/-- A patch is a callback, or gives fields to items all of which are records or refuse it. -/
inductive Patches (s : Store) (xs : List Value) :
    Value → Option (List (String × Value)) → Prop where
  | callback {f : Value} (hcallable : s.isCallable f = true) (hknown : s.Knows f) :
    Patches s xs f none
  | fields {v : Value} {patch : List (String × Value)}
    (hentries : s.entries? v = some (Entries.named patch)) (hnames : (patch.map Prod.fst).Nodup)
    (hitems : ∀ x ∈ xs, s.IsRecord x ∨ s.Refuses x) : Patches s xs v (some patch)

end Store

/-! ## Changes by patches -/

/-- What the content of a cell can be after items have been patched and put into lists. -/
inductive Cell.Patched (fields : Option (List (String × Value))) : Cell → Cell → Prop where
  | stays {c d : Cell} (h : c.Stays d) : Patched fields c d
  | list (xs ys : List Value) : Patched fields (.list xs) (.list ys)
  | dict (es : Entries) {patch : List (String × Value)} (h : fields = some patch) :
    Patched fields (.dict es) (.dict (es.patched patch))
  | object (fs : List (String × Value)) {patch : List (String × Value)} (h : fields = some patch) :
    Patched fields (.object fs) (.object (patchedFields fs patch))

theorem Cell.Patched.trans {fields : Option (List (String × Value))} {c d e : Cell}
    (hnames : ∀ patch, fields = some patch → (patch.map Prod.fst).Nodup)
    (hcd : c.Patched fields d) (hde : d.Patched fields e) : c.Patched fields e := by
  cases hcd with
  | stays hstays =>
    cases hstays with
    | same => exact hde
    | _ =>
      cases hde with
      | stays hlast => exact .stays (Cell.Stays.trans (by constructor) hlast)
  | list xs ys =>
    cases hde with
    | stays hstays =>
      cases hstays
      exact .list xs ys
    | list _ zs => exact .list xs zs
  | dict es hpatch =>
    cases hde with
    | stays hstays =>
      cases hstays
      exact .dict es hpatch
    | dict _ hagain =>
      cases hpatch.symm.trans hagain
      rw [Entries.patched_patched (hnames _ hpatch)]
      exact .dict es hpatch
  | object fs hpatch =>
    cases hde with
    | stays hstays =>
      cases hstays
      exact .object fs hpatch
    | object _ hagain =>
      cases hpatch.symm.trans hagain
      rw [patchedFields_patchedFields (hnames _ hpatch)]
      exact .object fs hpatch

theorem Store.Patches.isPatch {s : Store} {xs : List Value} {v : Value}
    {fields : Option (List (String × Value))} (h : s.Patches xs v fields) :
    (s.isCallable v || s.isMapping v) = true := by
  cases h with
  | callback hcallable _ => rw [hcallable, Bool.true_or]
  | fields hentries _ _ => rw [Store.isMapping, hentries, Option.isSome_some, Bool.or_true]

/-- No name is twice in a patch. -/
theorem Store.Patches.nodup {s : Store} {xs : List Value} {v : Value}
    {fields : Option (List (String × Value))} (h : s.Patches xs v fields) :
    ∀ patch, fields = some patch → (patch.map Prod.fst).Nodup := by
  cases h with
  | callback _ _ => exact nofun
  | fields _ hnames _ =>
    rintro _ ⟨⟩
    exact hnames

namespace State

variable {fields : Option (List (String × Value))} {s t u : State}

/-- A state comes after another one, and besides what passes only lists have been filled and records
have been given the fields of a patch. -/
structure Patched (fields : Option (List (String × Value))) (s t : State) : Prop where
  cells : ∀ a c, s.store.cell? a = some c → ∃ d, t.store.cell? a = some d ∧ c.Patched fields d
  marks : t.store.marks = s.store.marks

theorem Extends.patched (h : s.Extends t) : Patched fields s t := by
  refine ⟨fun a c hc => ?_, h.marks⟩
  obtain ⟨d, hd, hcd⟩ := h.cells a c hc
  exact ⟨d, hd, .stays hcd⟩

theorem patched_write {a : Address} {c d : Cell} (hc : s.store.cell? a = some c)
    (hcd : c.Patched fields d) : Patched fields s { s with store := s.store.write a d } := by
  refine ⟨fun b e he => ?_, rfl⟩
  by_cases hba : b = a
  · subst hba
    obtain rfl : c = e := Option.some.inj (hc.symm.trans he)
    exact ⟨d, (Store.cell?_write_eq_some hc).mpr (.inr ⟨rfl, rfl⟩), hcd⟩
  · exact ⟨e, (Store.cell?_write_eq_some hc).mpr (.inl ⟨hba, he⟩), .stays (.same e)⟩

theorem Patched.evolves (h : Patched fields s t) : s.Evolves t := by
  constructor
  · intro a c hc
    obtain ⟨d, hd, hcd⟩ := h.cells a c hc
    refine ⟨d, hd, ?_⟩
    cases hcd with
    | stays hstays => exact hstays.becomes
    | list xs ys => exact .list xs ys
    | dict es _ => exact .dict es _
    | object fs _ => exact .object fs _
  · intro a kind fields _ name
    simp only [Store.mark?, h.marks]

theorem Patched.trans (hnames : ∀ patch, fields = some patch → (patch.map Prod.fst).Nodup)
    (hst : Patched fields s t) (htu : Patched fields t u) : Patched fields s u := by
  refine ⟨fun a c hc => ?_, htu.marks.trans hst.marks⟩
  obtain ⟨d, hd, hcd⟩ := hst.cells a c hc
  obtain ⟨e, he, hde⟩ := htu.cells a d hd
  exact ⟨e, he, hcd.trans hnames hde⟩

/-- A fitting record stays so. -/
theorem Patched.fits {patch : List (String × Value)} (h : Patched (some patch) s t) {v : Value}
    (hv : s.store.Fits patch v) : t.store.Fits patch v := by
  cases hv with
  | @dict a es hdict hsame =>
    obtain ⟨d, hd, hcd⟩ := h.cells a _ hdict
    cases hcd with
    | stays hstays =>
      cases hstays
      exact .dict hd hsame
    | dict _ hpatch =>
      cases hpatch
      rw [hsame] at hd
      exact .dict hd hsame
  | @object a fs hobject hsame =>
    obtain ⟨d, hd, hcd⟩ := h.cells a _ hobject
    cases hcd with
    | stays hstays =>
      cases hstays
      exact .object hd hsame
    | object _ hpatch =>
      cases hpatch
      rw [hsame] at hd
      exact .object hd hsame

/-- A record stays one. -/
theorem Evolves.isRecord (h : s.Evolves t) {v : Value} (hv : s.store.IsRecord v) :
    t.store.IsRecord v := by
  cases hv with
  | dict hdict =>
    obtain ⟨d, hd, hcd⟩ := h.cells _ _ hdict
    cases hcd <;> exact .dict hd
  | frozen hfrozen =>
    obtain ⟨d, hd, hcd⟩ := h.cells _ _ hfrozen
    cases hcd
    exact .frozen hd
  | object hobject =>
    obtain ⟨d, hd, hcd⟩ := h.cells _ _ hobject
    cases hcd <;> exact .object hd

theorem Evolves.hasAttributes (h : s.Evolves t) {v : Value} (hv : s.store.Knows v) :
    hasAttributes t.store v = hasAttributes s.store v := by
  unfold Action.hasAttributes
  split
  · rfl
  · rfl
  · rfl
  · rfl
  · rcases h.view hv with ⟨hs, ht⟩ | ⟨c, d, hs, ht, hcd⟩
    · rw [hs, ht]
    · rw [hs, ht]
      cases hcd <;> rfl

/-- What refuses to be patched goes on to do so. -/
theorem Evolves.refuses (h : s.Evolves t) {v : Value} (hv : s.store.Refuses v) :
    t.store.Refuses v := by
  have hmapping := h.isMapping hv.known
  refine ⟨?_, ?_, (h.hasAttributes hv.known).trans hv.attributes⟩
  · cases v with
    | ref a => exact Nat.lt_of_lt_of_le hv.known h.size_le
    | _ => trivial
  · unfold Store.isMapping at hmapping
    rw [hv.entries] at hmapping
    exact Option.not_isSome_iff_eq_none.mp (by rw [hmapping]; decide)

/-- A patch stays what it is, also when it is merged into itself. -/
theorem Patched.patches (h : Patched fields s t) {xs : List Value} {v : Value}
    (hv : s.store.Patches xs v fields) : t.store.Patches xs v fields := by
  cases hv with
  | callback hcallable hknown =>
    refine .callback ((h.evolves.isCallable hknown).trans hcallable) ?_
    cases v with
    | ref a => exact Nat.lt_of_lt_of_le hknown h.evolves.size_le
    | _ => trivial
  | fields hentries hnames hitems =>
    refine .fields ?_ hnames fun x hx =>
      (hitems x hx).imp h.evolves.isRecord h.evolves.refuses
    cases v with
    | ref a =>
      unfold Store.entries?
      rcases Store.view_of_entries? hentries with hdict | hfrozen
      · obtain ⟨d, hd, hcd⟩ := h.cells a _ hdict
        cases hcd with
        | stays hstays =>
          cases hstays
          simp only [Store.view, hd]
        | dict _ hpatch =>
          cases hpatch
          rw [Entries.patched_named hnames] at hd
          simp only [Store.view, hd]
      · obtain ⟨d, hd, hcd⟩ := h.cells a _ hfrozen
        cases hcd with
        | stays hstays =>
          cases hstays
          simp only [Store.view, hd]
    | _ => cases hentries

end State

/-! ## One item -/

/-- An update finds what it puts in the place of an item. -/
structure Puts (fields : Option (List (String × Value))) (x : Value) (s : State) (v : Value)
    (t : State) : Prop where
  patched : s.Patched fields t
  /-- lists are left alone -/
  lists : ∀ {b : Address} {ys : List Value}, s.store.cell? b = some (.list ys) →
    t.store.cell? b = some (.list ys)
  fits : ∀ patch, fields = some patch → t.store.Fits patch v
  /-- nothing changes when the item has all that the patch gives -/
  extends_of_fits : (∀ patch, fields = some patch → s.store.Fits patch x) → s.Extends t

section

variable {s : State} {x : Value} {patch : List (String × Value)}

/-- A patch is merged into every record. -/
theorem merge_ok (hnames : (patch.map Prod.fst).Nodup) (hx : s.store.IsRecord x) :
    ∃ v t, (merge x (Entries.named patch)).execute s = (.ok v, t) ∧ Puts (some patch) x s v t := by
  have hsame : ∀ {a : Address} {c : Cell}, s.store.cell? a = some c →
      s.Extends { s with store := s.store.write a c } := by
    intro a c hc
    rw [Store.write_self hc]
    exact .refl s
  have hlists : ∀ {a : Address} {c d : Cell}, s.store.cell? a = some c →
      (∀ ys, c ≠ .list ys) → ∀ {b : Address} {ys : List Value},
        s.store.cell? b = some (.list ys) → (s.store.write a d).cell? b = some (.list ys) := by
    intro a c d hc hother b ys hys
    refine (Store.cell?_write_eq_some hc).mpr (.inl ⟨?_, hys⟩)
    rintro rfl
    exact hother ys (Option.some.inj (hc.symm.trans hys))
  cases hx with
  | @dict a es hdict =>
    refine ⟨.ref a, _, execute_merge_dict hnames hdict, ?_, hlists hdict nofun, ?_, ?_⟩
    · exact State.patched_write hdict (.dict es rfl)
    · rintro _ ⟨⟩
      exact .dict (Store.cell?_write_of_lt _ (Store.index_lt_of_cell? hdict))
        (Entries.patched_patched hnames)
    · intro hfits
      cases hfits patch rfl with
      | dict hthere hfit =>
        obtain rfl : es = _ := by simpa using hdict.symm.trans hthere
        rw [hfit]
        exact hsame hdict
      | object hthere _ => cases hdict.symm.trans hthere
  | @frozen a es hfrozen =>
    have hgrows := State.grows_alloc s (.dict (es.patched patch))
    refine ⟨.ref ⟨s.store.size⟩, _, execute_merge_frozen hnames hfrozen, hgrows.extends.patched,
      fun hys => hgrows.cells _ _ hys, ?_, fun _ => hgrows.extends⟩
    rintro _ ⟨⟩
    exact .dict (s.store.cell?_alloc _) (Entries.patched_patched hnames)
  | @object a fs hobject =>
    refine ⟨.ref a, _, execute_merge_object hnames hobject, ?_, hlists hobject nofun, ?_, ?_⟩
    · exact State.patched_write hobject (.object fs rfl)
    · rintro _ ⟨⟩
      exact .object (Store.cell?_write_of_lt _ (Store.index_lt_of_cell? hobject))
        (patchedFields_patchedFields hnames)
    · intro hfits
      cases hfits patch rfl with
      | dict hthere _ => cases hobject.symm.trans hthere
      | object hthere hfit =>
        obtain rfl : fs = _ := by simpa using hobject.symm.trans hthere
        rw [hfit]
        exact hsame hobject

end

namespace Collection

variable {caller : Caller} {a : Address} {c : Collection} {xs ys : List Value}
  {test : Option Expression} {p x : Value} {fields : Option (List (String × Value))} {i : Nat}
  {s t u : State}

/-- What an update does with an item. -/
def updateOne (caller : Caller) (a : Address) (test : Option Expression) (patch item : Value)
    (index : Nat) : Action Unit := do
  if ← concerns caller test item index then
    assign (.ref a) (.int index) (← updated caller patch item index)

/-- An item is put in its place. -/
theorem execute_assign (hholds : s.store.Holds a c ys) (hi : i < ys.length) (v : Value) :
    (assign (.ref a) (.int i) v).execute s =
      (.ok (), { s with store := s.store.write c.list (.list (ys.set i v)) }) := by
  have hplace : replaceAt ys (.int i) v = .ok (ys.set i v) := by
    have hindex : Slice.place? ys.length i = some i := by
      unfold Slice.place?
      simp only [Int.not_lt.mpr (Int.natCast_nonneg i), if_false]
      rw [if_pos ⟨Int.natCast_nonneg i, Int.ofNat_lt.mpr hi⟩, Int.toNat_natCast]
    unfold replaceAt
    simp only [Value.index?, hindex]
  unfold assign
  dsimp only
  rw [execute_bind_of_ok (execute_cell hholds.cell)]
  dsimp only
  rw [execute_get_bind, hholds.items, hplace]
  unfold fillList
  dsimp only [Action.ofExcept]
  rw [pure_bind, execute_bind_of_ok (execute_cell hholds.list)]
  rfl

section

variable (hcaller : ObeysCaller State.Extends caller)
include hcaller

/-- Finding what comes in the place of an item fails without a trace, or finds it. -/
theorem updated_cases (hp : s.store.Patches xs p fields) (hx : x ∈ xs)
    {r : Except Error Value} (h : (updated caller p x i).execute s = (r, t)) :
    (∃ e, r = .error e ∧ s.Extends t) ∨ ∃ v, r = .ok v ∧ Puts fields x s v t := by
  unfold updated at h
  rw [execute_get_bind] at h
  cases hp with
  | callback hcallable hknown =>
    rw [Query.entries?_of_isCallable hcallable] at h
    have ht : s.Extends t := (Callback.obeys_call hcaller _ _ _).of_execute h
    cases r with
    | error e => exact .inl ⟨e, rfl, ht⟩
    | ok v =>
      exact .inr ⟨v, rfl, ht.patched, fun hys => ht.list hys, nofun, fun _ => ht⟩
  | @fields patch hentries hnames hitems =>
    rw [hentries] at h
    rcases hitems x hx with hrecord | hrefuses
    · obtain ⟨v, w, hrun, hputs⟩ := merge_ok hnames hrecord
      cases hrun.symm.trans h
      exact .inr ⟨v, rfl, hputs⟩
    · cases (execute_merge_refused hrefuses.entries hrefuses.attributes _).symm.trans h
      exact .inl ⟨_, rfl, .refl _⟩

/-- An update passes an item over, fails there without a trace, or puts in its place what it has
found. -/
theorem updateOne_cases (hholds : s.store.Holds a c ys) (hi : i < ys.length)
    (hp : s.store.Patches xs p fields) (hx : x ∈ xs) {r : Except Error Unit}
    (h : (updateOne caller a test p x i).execute s = (r, t)) :
    (∃ e, r = .error e ∧ s.Extends t) ∨
      ((concerns caller test x i).execute s = (.ok false, t) ∧ s.Extends t) ∨
      ∃ u v w, (concerns caller test x i).execute s = (.ok true, u) ∧ s.Extends u ∧
        (updated caller p x i).execute u = (.ok v, w) ∧ Puts fields x u v w ∧
        w.store.Holds a c ys ∧ (assign (.ref a) (.int i) v).execute w = (r, t) ∧ r = .ok () ∧
        t = { w with store := w.store.write c.list (.list (ys.set i v)) } := by
  unfold updateOne at h
  rcases execute_bind_cases h with ⟨e, rfl, hfails⟩ | ⟨concerned, u, htest, hrest⟩
  · exact .inl ⟨e, rfl, (obeys_concerns hcaller test x i).of_execute hfails⟩
  · have hu : s.Extends u := (obeys_concerns hcaller test x i).of_execute htest
    cases concerned with
    | false =>
      cases hrest
      exact .inr (.inl ⟨htest, hu⟩)
    | true =>
      rw [if_pos rfl] at hrest
      have hlater := hholds.extends hu
      rcases execute_bind_cases hrest with ⟨e, rfl, hfails⟩ | ⟨v, w, hfound, hassign⟩
      · rcases updated_cases hcaller (hu.patched.patches hp) hx hfails with ⟨_, -, ht⟩ | ⟨v, hv, -⟩
        · exact .inl ⟨e, rfl, hu.trans ht⟩
        · cases hv
      · rcases updated_cases hcaller (hu.patched.patches hp) hx hfound with
          ⟨_, he, -⟩ | ⟨_, hv, hputs⟩
        · cases he
        · cases hv
          have hcell : w.store.cell? a = some (.collection c) := by
            obtain ⟨d, hd, hcd⟩ := hputs.patched.cells a _ hlater.cell
            cases hcd with
            | stays hstays =>
              cases hstays
              exact hd
          have hthere : w.store.Holds a c ys := ⟨hcell, hputs.lists hlater.list⟩
          have hwrite := execute_assign hthere hi v
          cases hwrite.symm.trans hassign
          exact .inr (.inr ⟨u, v, w, htest, hu, hfound, hputs, hthere, hwrite, rfl, rfl⟩)

end

/-! ## Item by item -/

/-- An update has dealt with the first items of a collection; the list tells for each of them what
has been put in its place, if anything. -/
inductive Updates (caller : Caller) (a : Address) (test : Option Expression) (p : Value) :
    List (Option Value) → State → State → Prop where
  | nil (s : State) : Updates caller a test p [] s s
  | pass {done : List (Option Value)} {ys : List Value} {x : Value} {s t u : State}
    (hdone : Updates caller a test p done s t) (hlists : t.store.Lists a ys)
    (hitem : ys[done.length]? = some x)
    (hpass : (concerns caller test x done.length).execute t = (.ok false, u)) :
    Updates caller a test p (done ++ [none]) s u
  | put {done : List (Option Value)} {ys : List Value} {x v : Value} {s t u w z : State}
    (hdone : Updates caller a test p done s t) (hlists : t.store.Lists a ys)
    (hitem : ys[done.length]? = some x)
    (hconcerned : (concerns caller test x done.length).execute t = (.ok true, u))
    (hfound : (updated caller p x done.length).execute u = (.ok v, w))
    (hput : (assign (.ref a) (.int done.length) v).execute w = (.ok (), z)) :
    Updates caller a test p (done ++ [some v]) s z

/-- All that has been put in the place of items was there before, and has all that a patch gives. -/
def Unchanged (xs : List Value) (fields : Option (List (String × Value)))
    (done : List (Option Value)) (s : Store) : Prop :=
  ∀ (i : Nat) (v : Value), done[i]? = some (some v) →
    xs[i]? = some v ∧ ∀ patch, fields = some patch → s.Fits patch v

/-- What holds after the first items have been dealt with, if the items were those of a list. -/
structure Dealt (a : Address) (c : Collection) (xs : List Value) (p : Value)
    (fields : Option (List (String × Value))) (done : List (Option Value)) (s t : State) :
    Prop where
  patched : s.Patched fields t
  patches : t.store.Patches xs p fields
  holds : ∃ ys, t.store.Holds a c ys ∧ ys.length = xs.length ∧
    (∀ (i : Nat) (v : Value), done[i]? = some (some v) → ys[i]? = some v) ∧
    ∀ i : Nat, done.length ≤ i → ys[i]? = xs[i]?
  fits : ∀ (i : Nat) (v : Value), done[i]? = some (some v) →
    ∀ patch, fields = some patch → t.store.Fits patch v
  extends_of_unchanged : Unchanged xs fields done s.store → s.Extends t

theorem getElem?_snoc {done : List (Option Value)} {d : Option Value} {i : Nat} {v : Value} :
    (done ++ [d])[i]? = some (some v) ↔
      done[i]? = some (some v) ∨ (i = done.length ∧ d = some v) := by
  rcases Nat.lt_trichotomy i done.length with hlt | rfl | hgt
  · rw [List.getElem?_append_left hlt]
    exact ⟨.inl, fun h => h.resolve_right fun ⟨heq, _⟩ => Nat.ne_of_lt hlt heq⟩
  · rw [List.getElem?_append_right (Nat.le_refl _), Nat.sub_self]
    simp
  · rw [List.getElem?_eq_none (by simp; omega), List.getElem?_eq_none (by omega)]
    simp only [reduceCtorEq, false_or, false_iff, not_and]
    omega

section

variable {done : List (Option Value)} {v : Value} {w : State}

theorem Dealt.pass (h : Dealt a c xs p fields done s t) (ht : t.Extends u) :
    Dealt a c xs p fields (done ++ [none]) s u := by
  obtain ⟨ys, hholds, hlength, hput, hrest⟩ := h.holds
  have hold : ∀ {i : Nat} {v : Value}, (done ++ [none])[i]? = some (some v) →
      done[i]? = some (some v) := fun hi =>
    (getElem?_snoc.mp hi).resolve_right fun hlast => nomatch hlast.2
  refine ⟨h.patched.trans h.patches.nodup ht.patched, ht.patched.patches h.patches,
    ⟨ys, hholds.extends ht, hlength, fun i v hi => hput i v (hold hi), fun i hi => hrest i ?_⟩,
    ?_, fun hsame => ?_⟩
  · rw [List.length_append] at hi
    exact Nat.le_of_succ_le hi
  · rintro i v hi patch rfl
    exact ht.patched.fits (h.fits i v (hold hi) patch rfl)
  · have hbefore : Unchanged xs fields done s.store := fun i v hi =>
      hsame i v (getElem?_snoc.mpr (.inl hi))
    exact (h.extends_of_unchanged hbefore).trans ht

theorem Dealt.put (h : Dealt a c xs p fields done s t) (hitem : xs[done.length]? = some x)
    (ht : t.Extends u) (hputs : Puts fields x u v w) (hthere : t.store.Holds a c ys)
    (hlater : w.store.Holds a c ys) :
    Dealt a c xs p fields (done ++ [some v]) s
      { w with store := w.store.write c.list (.list (ys.set done.length v)) } := by
  obtain ⟨zs, hholds, hlength, hput, hrest⟩ := h.holds
  obtain rfl : ys = zs := hthere.items.symm.trans hholds.items
  have hi : done.length < ys.length := by
    rw [hlength]
    exact (List.getElem?_eq_some_iff.mp hitem).1
  have hwrite : State.Patched fields w
      { w with store := w.store.write c.list (.list (ys.set done.length v)) } :=
    State.patched_write hlater.list (.list ys _)
  have hstep : State.Patched fields t _ :=
    ht.patched.trans h.patches.nodup (hputs.patched.trans h.patches.nodup hwrite)
  refine ⟨h.patched.trans h.patches.nodup hstep, hstep.patches h.patches,
    ⟨ys.set done.length v, hlater.write _, ?_, fun i x hx => ?_, fun i hle => ?_⟩, ?_,
    fun hsame => ?_⟩
  · rw [List.length_set, hlength]
  · rcases getElem?_snoc.mp hx with hold | ⟨rfl, hv⟩
    · have hlt : i < done.length := (List.getElem?_eq_some_iff.mp hold).1
      rw [List.getElem?_set_ne (Nat.ne_of_gt hlt)]
      exact hput i x hold
    · cases hv
      exact List.getElem?_set_self hi
  · rw [List.length_append] at hle
    have hle : done.length < i := hle
    rw [List.getElem?_set_ne (Nat.ne_of_lt hle)]
    exact hrest i (Nat.le_of_lt hle)
  · rintro i x hx patch rfl
    rcases getElem?_snoc.mp hx with hold | ⟨rfl, hv⟩
    · exact hstep.fits (h.fits i x hold patch rfl)
    · cases hv
      exact hwrite.fits (hputs.fits patch rfl)
  · have hbefore : Unchanged xs fields done s.store := fun i v hi =>
      hsame i v (getElem?_snoc.mpr (.inl hi))
    obtain ⟨hplace, hfits⟩ := hsame done.length v (getElem?_snoc.mpr (.inr ⟨rfl, rfl⟩))
    obtain rfl : x = v := Option.some.inj (hitem.symm.trans hplace)
    have hst := h.extends_of_unchanged hbefore
    have hsw : s.Extends w := by
      refine (hst.trans ht).trans (hputs.extends_of_fits fun patch hpatch => ?_)
      cases hpatch
      exact (hst.trans ht).patched.fits (hfits patch rfl)
    have hthere : ys[done.length]? = some x := (hrest _ (Nat.le_refl _)).trans hitem
    obtain ⟨hlt, rfl⟩ := List.getElem?_eq_some_iff.mp hthere
    rw [List.set_getElem_self hlt, Store.write_self hlater.list]
    exact hsw

end

/-- A record that fits later and has not been changed fits already. -/
theorem fits_of_extends {patch : List (String × Value)} {v : Value} (h : s.Extends t)
    (hv : s.store.IsRecord v ∨ s.store.Refuses v) (hfits : t.store.Fits patch v) :
    s.store.Fits patch v := by
  rcases hv with hrecord | hrefuses
  · cases hrecord with
    | dict hdict =>
      obtain ⟨d, hd, hcd⟩ := h.cells _ _ hdict
      cases hcd
      cases hfits with
      | dict hthere hsame =>
        cases hd.symm.trans hthere
        exact .dict hdict hsame
      | object hthere _ => cases hd.symm.trans hthere
    | frozen hfrozen =>
      obtain ⟨d, hd, hcd⟩ := h.cells _ _ hfrozen
      cases hcd
      cases hfits with
      | dict hthere _ => cases hd.symm.trans hthere
      | object hthere _ => cases hd.symm.trans hthere
    | object hobject =>
      obtain ⟨d, hd, hcd⟩ := h.cells _ _ hobject
      cases hcd
      cases hfits with
      | dict hthere _ => cases hd.symm.trans hthere
      | object hthere hsame =>
        cases hd.symm.trans hthere
        exact .object hobject hsame
  · have hlater := h.evolves.refuses hrefuses
    cases hfits with
    | dict hthere _ =>
      have hnone := hlater.entries
      simp [Store.entries?, Store.view, hthere] at hnone
    | object hthere _ =>
      have hnone := hlater.attributes
      simp [Action.hasAttributes, Store.view, hthere] at hnone

section

variable {done : List (Option Value)} {w : State} {e : Error}
  (hcaller : ObeysCaller State.Extends caller)
include hcaller

/-- Dealing with the next item keeps what holds after the first ones. -/
theorem Dealt.step (h : Dealt a c xs p fields done s t) (hitem : xs[done.length]? = some x)
    (hdone : Updates caller a test p done u t)
    (hrun : (updateOne caller a test p x done.length).execute t = (.ok (), w)) :
    ∃ d, Updates caller a test p (done ++ [d]) u w ∧ Dealt a c xs p fields (done ++ [d]) s w := by
  obtain ⟨ys, hholds, hlength, -, hrest⟩ := h.holds
  have hthere : ys[done.length]? = some x := (hrest _ (Nat.le_refl _)).trans hitem
  have hi := (List.getElem?_eq_some_iff.mp hthere).1
  have hx : x ∈ xs := List.mem_of_getElem? hitem
  rcases updateOne_cases hcaller hholds hi h.patches hx hrun with
    ⟨_, he, -⟩ | ⟨hpass, hw⟩ | ⟨_, v, _, hconcerned, hu, hfound, hputs, hlater, hput, -, rfl⟩
  · cases he
  · exact ⟨none, .pass hdone ⟨c, hholds⟩ hthere hpass, h.pass hw⟩
  · exact ⟨some v, .put hdone ⟨c, hholds⟩ hthere hconcerned hfound hput,
      h.put hitem hu hputs hholds hlater⟩

/-- When dealing with the next item fails, nothing has changed exactly if nothing had by then. -/
theorem Dealt.extends_iff (h : Dealt a c xs p fields done s t) (hp : s.store.Patches xs p fields)
    (hstart : s.store.Holds a c xs) (hitem : xs[done.length]? = some x)
    (hfails : (updateOne caller a test p x done.length).execute t = (.error e, w)) :
    s.Extends w ↔ Unchanged xs fields done s.store := by
  obtain ⟨ys, hholds, -, hput, hrest⟩ := h.holds
  have hthere : ys[done.length]? = some x := (hrest _ (Nat.le_refl _)).trans hitem
  have hi := (List.getElem?_eq_some_iff.mp hthere).1
  have hx : x ∈ xs := List.mem_of_getElem? hitem
  have hlast : t.Extends w := by
    rcases updateOne_cases hcaller hholds hi h.patches hx hfails with
      ⟨_, -, hw⟩ | ⟨-, hw⟩ | ⟨_, _, _, -, -, -, -, -, -, hok, -⟩
    · exact hw
    · exact hw
    · cases hok
  constructor
  · intro hsw i v hv
    have hsame : ys = xs := (hholds.extends hlast).items.symm.trans (hstart.extends hsw).items
    have hplace : xs[i]? = some v := hsame ▸ hput i v hv
    refine ⟨hplace, ?_⟩
    rintro patch rfl
    have hfits := hlast.patched.fits (h.fits i v hv patch rfl)
    cases hp with
    | fields _ _ hitems => exact fits_of_extends hsw (hitems v (List.mem_of_getElem? hplace)) hfits
  · exact fun hsame => (h.extends_of_unchanged hsame).trans hlast

end

/-! ## The whole update -/

/-- The arguments of an update: a patch, with a query before it or without. -/
inductive AsksUpdate : List Value → Value → Value → Prop where
  | all (patch : Value) : AsksUpdate [patch] .null patch
  | matching (spec patch : Value) : AsksUpdate [spec, patch] spec patch

/-- The compiled query of an update, if there is one. -/
def queryOf (caller : Caller) (a : Address) (spec : Value) : Action (Option Expression) := do
  match spec with
  | .null => pure none
  | _ => do pure (some (← compile caller a spec))

variable {args : List Value} {spec : Value} {e : Error}

/-- A patch that is one is merged into the items one after another. -/
theorem execute_update (hasks : AsksUpdate args spec p)
    (hp : (s.store.isCallable p || s.store.isMapping p) = true) :
    (update caller a args).execute s = (do
      let test ← queryOf caller a spec
      fold a () fun _ item i => updateOne caller a test p item i
      return Value.ref a).execute s := by
  have hpatch : (!s.store.isCallable p && !s.store.isMapping p) = false := by
    rw [← Bool.not_or, hp]
    rfl
  cases hasks with
  | all =>
    unfold update
    dsimp only
    rw [pure_bind, execute_get_bind]
    dsimp only
    rw [hpatch, if_neg Bool.false_ne_true]
    rfl
  | matching =>
    unfold update
    dsimp only
    rw [pure_bind, execute_get_bind]
    dsimp only
    rw [hpatch, if_neg Bool.false_ne_true]
    cases spec with
    | null => rfl
    | _ =>
      simp only [queryOf, bind_assoc]
      rfl

/-- An update fails after it has dealt with so many items: while the query is compiled, or at the
next one. -/
inductive FailsAfter (caller : Caller) (a : Address) (spec p : Value) :
    List (Option Value) → State → State → Prop where
  | query {s t : State} {e : Error} (h : (queryOf caller a spec).execute s = (.error e, t)) :
    FailsAfter caller a spec p [] s t
  | item {test : Option Expression} {done : List (Option Value)} {ys : List Value} {x : Value}
    {s t u w : State} {e : Error} (hquery : (queryOf caller a spec).execute s = (.ok test, u))
    (hdone : Updates caller a test p done u w) (hlists : w.store.Lists a ys)
    (hitem : ys[done.length]? = some x)
    (hfails : (updateOne caller a test p x done.length).execute w = (.error e, t)) :
    FailsAfter caller a spec p done s t

theorem obeys_queryOf (hcaller : ObeysCaller State.Extends caller) (a : Address) (spec : Value) :
    Obeys State.Extends (queryOf caller a spec) := by
  unfold queryOf
  split
  · exact obeys_pure _
  · exact obeys_bind (obeys_compile hcaller a _) fun e => obeys_pure _

theorem fails_of_update (hcaller : ObeysCaller State.Extends caller) (hholds : s.store.Holds a c xs)
    (hasks : AsksUpdate args spec p) (hp : s.store.Patches xs p fields)
    (hrun : (update caller a args).execute s = (.error e, t)) :
    ∃ done, FailsAfter caller a spec p done s t ∧
      (s.Extends t ↔ Unchanged xs fields done s.store) := by
  rw [execute_update hasks hp.isPatch] at hrun
  rcases execute_bind_cases hrun with ⟨e, -, hfails⟩ | ⟨test, u, hquery, hrest⟩
  · have ht : s.Extends t := (obeys_queryOf hcaller a spec).of_execute hfails
    exact ⟨[], .query hfails, fun _ => nofun, fun _ => ht⟩
  · have hu : s.Extends u := (obeys_queryOf hcaller a spec).of_execute hquery
    have hstart : Dealt a c xs p fields [] s u :=
      ⟨hu.patched, hu.patched.patches hp, ⟨xs, hholds.extends hu, rfl, nofun, fun _ _ => rfl⟩,
        nofun, fun _ => hu⟩
    rcases execute_bind_cases hrest with ⟨e, -, hfold⟩ | ⟨_, w, -, hend⟩
    · let Before : Nat → Unit → State → Prop := fun i _ w => ∃ done, done.length = i ∧
        Updates caller a test p done u w ∧ Dealt a c xs p fields done s w
      have hlists : ∀ i state w, Before i state w →
          ∃ ys, w.store.Lists a ys ∧ ys.length = xs.length ∧ ys[i]? = xs[i]? := by
        rintro _ _ w ⟨done, rfl, -, hdealt⟩
        obtain ⟨ys, hthere, hlength, -, hrest⟩ := hdealt.holds
        exact ⟨ys, ⟨c, hthere⟩, hlength, hrest _ (Nat.le_refl _)⟩
      have hstep : ∀ i (hi : i < xs.length) state w next z, Before i state w →
          (updateOne caller a test p xs[i] i).execute w = (.ok next, z) →
          Before (i + 1) next z := by
        rintro _ hi _ w _ z ⟨done, rfl, hdone, hdealt⟩ hstep
        obtain ⟨d, hnext, hlater⟩ :=
          hdealt.step hcaller (List.getElem?_eq_getElem hi) hdone hstep
        exact ⟨done ++ [d], List.length_append, hnext, hlater⟩
      rcases fold_cases Before hlists ⟨[], rfl, .nil u, hstart⟩ hstep hfold with
        ⟨_, hok, -⟩ | ⟨_, hi, _, w, _, ⟨done, rfl, hdone, hdealt⟩, hfails, -⟩
      · cases hok
      · obtain ⟨ys, hthere, -, -, hrest⟩ := hdealt.holds
        have hitem := List.getElem?_eq_getElem hi
        exact ⟨done, .item hquery hdone ⟨c, hthere⟩ ((hrest _ (Nat.le_refl _)).trans hitem) hfails,
          hdealt.extends_iff hcaller hp hholds hitem hfails⟩
    · cases hend

/-! ## Main statement -/

/-- An update fails after it has dealt with so many items, and then the collection holds the same
items and all items have the same fields exactly if what had been put in the place of each of these
items was the item itself and had all that the patch gives.  The patch is a callback, or gives
fields to records and to values that refuse it, and no callback changes anything. -/
theorem update_untouched_iff (hholds : s.store.Holds a c xs) (hasks : AsksUpdate args spec p)
    (hp : s.store.Patches xs p fields) (hquiet : s.Undisturbed caller fun f => update f a args)
    (hrun : (update caller a args).execute s = (.error e, t)) :
    ∃ done, FailsAfter caller.tame a spec p done s t ∧
      (t.store.Holds a c xs ∧ s.Extends t ↔ Unchanged xs fields done s.store) := by
  have htame : ObeysCaller State.Extends caller.tame := obeysCaller_of_gentle caller.obeys_tame
  obtain ⟨done, hfails, hiff⟩ :=
    fails_of_update htame hholds hasks hp (hquiet.symm.trans hrun)
  exact ⟨done, hfails, fun h => hiff.mp h.2, fun h => ⟨hholds.extends (hiff.mpr h), hiff.mpr h⟩⟩

/-- A collection of a number and a record, a patch, and a collection of the two in the other
order. -/
def numberAndRecord : State where
  store := { cells := #[
    .policy {},
    .registry {},
    .generator ⟨0⟩,
    .dict [],
    .list [.int 5, .ref ⟨6⟩],
    .collection
      { list := ⟨4⟩, validators := ⟨3⟩, policy := ⟨0⟩, registry := ⟨1⟩, generator := ⟨2⟩ },
    .dict [(.str "a", .int 1)],
    .dict [(.str "b", .int 2)],
    .list [.ref ⟨6⟩, .int 5],
    .collection
      { list := ⟨8⟩, validators := ⟨3⟩, policy := ⟨0⟩, registry := ⟨1⟩, generator := ⟨2⟩ }] }

/-- A number in the first place is not patched, and then nothing is. -/
theorem update_numberAndRecord :
    ∃ e t, (update apply ⟨5⟩ [.ref ⟨7⟩]).execute numberAndRecord = (.error e, t) ∧
      numberAndRecord.Extends t := by
  have hholds : numberAndRecord.store.Holds ⟨5⟩ _ [.int 5, .ref ⟨6⟩] := ⟨rfl, rfl⟩
  have hp : numberAndRecord.store.Patches [.int 5, .ref ⟨6⟩] (.ref ⟨7⟩) (some [("b", .int 2)]) := by
    refine .fields rfl (by decide) fun x hx => ?_
    rcases List.mem_cons.mp hx with rfl | hx
    · exact .inr ⟨trivial, rfl, rfl⟩
    · rw [List.mem_singleton.mp hx]
      exact .inl (.dict rfl)
  have hrun : ∀ caller, (update caller ⟨5⟩ [.ref ⟨7⟩]).execute numberAndRecord =
      (.error (.refusal (.unmergeable "int")), numberAndRecord) := fun _ => rfl
  have hquiet : numberAndRecord.Undisturbed apply fun f => update f ⟨5⟩ [.ref ⟨7⟩] :=
    (hrun apply).trans (hrun apply.tame).symm
  obtain ⟨done, hfails, hiff⟩ := update_untouched_iff hholds (.all _) hp hquiet (hrun apply)
  refine ⟨_, _, hrun apply, (hiff.mpr ?_).2⟩
  have hnone : ∀ {done s w}, Updates apply.tame ⟨5⟩ none (.ref ⟨7⟩) done s w →
      s = numberAndRecord → done = [] ∧ w = numberAndRecord := by
    intro done s w hdone
    induction hdone with
    | nil s => exact fun hs => ⟨rfl, hs⟩
    | pass _ _ _ hpass => cases hpass
    | put hdone hlists hitem hconcerned hfound _ ih =>
      intro hs
      obtain ⟨rfl, rfl⟩ := ih hs
      obtain ⟨d, hthere⟩ := hlists
      cases hholds.cell.symm.trans hthere.cell
      cases hholds.list.symm.trans hthere.list
      cases hitem
      cases hconcerned
      cases hfound
  cases hfails with
  | query _ => exact nofun
  | item hquery hdone _ _ _ =>
    cases hquery
    rw [(hnone hdone rfl).1]
    exact nofun

/-- A record in the first place has been patched when the number behind it is not. -/
theorem patches_numberAndRecord :
    ∃ e t, (update apply ⟨9⟩ [.ref ⟨7⟩]).execute numberAndRecord = (.error e, t) ∧
      t.store.cell? ⟨6⟩ = some (.dict [(.str "a", .int 1), (.str "b", .int 2)]) ∧
      ¬numberAndRecord.Extends t := by
  refine ⟨_, _, rfl, rfl, fun h => ?_⟩
  obtain ⟨d, hd, hstays⟩ := h.cells ⟨6⟩ _ rfl
  cases hd
  cases hstays

end Collection

end Recordset
