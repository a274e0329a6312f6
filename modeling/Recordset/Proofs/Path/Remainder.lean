import Mathlib.Data.Finset.Image
import Recordset.Proofs.Path.Alike
import Recordset.Proofs.Path.Removal
set_option autoImplicit false

/-!
# What is left of a mapping

Let fields be dropped from a value, each at the end of a path.  Where no path starts with one of
its keys, the value itself is left.  Otherwise a copy is left (`Path.Remainder`): it has the keys
at which no path ends, in their order, and under each of them what is left of what was there.  A
path of which the rest names the value that it has come to drops nothing from that value, but has
the mapping around it copied.

What is left only depends on the set of the paths.  Dropping another field leaves what is left when
its path is one more of them (`Path.Remainder.withoutAt`), and a path that goes another way than
all of them leads to the same as before (`Path.Remainder.follow_together`).

`Path.value_elsewhere` is the main statement.
-/

namespace Recordset.Path

open Recordset.Action

/-! ## Names to be dropped -/

section

variable (P : Finset (List String))

/-- Whether a path ends at a key. -/
def drops : Value → Bool
  | .str name => decide ([name] ∈ P)
  | _ => false

/-- How paths go on from a name: the rest of each one that starts with it, unless nothing is left or
the rest names the value that it starts from. -/
def after (name : String) : Finset (List String) :=
  (P.filter fun names => names.head? = some name ∧ names.tail ≠ [] ∧
    isWhole (names.tail.map .str) = false).image List.tail

/-- A path starts with a key of a mapping. -/
def Touches (es : Entries) : Prop := ∃ name rest, name :: rest ∈ P ∧ .str name ∈ es.map (·.1)

end

variable {P : Finset (List String)} {name : String} {rest : List String} {es fs : Entries}

theorem mem_after :
    rest ∈ after P name ↔ name :: rest ∈ P ∧ rest ≠ [] ∧ isWhole (rest.map .str) = false := by
  unfold after
  rw [Finset.mem_image]
  constructor
  · rintro ⟨names, hmem, rfl⟩
    obtain ⟨hP, hhead, hrest⟩ := Finset.mem_filter.mp hmem
    obtain ⟨rest, rfl⟩ := List.head?_eq_some_iff.mp hhead
    exact ⟨hP, hrest⟩
  · rintro ⟨hP, hrest⟩
    exact ⟨name :: rest, Finset.mem_filter.mpr ⟨hP, rfl, hrest⟩, rfl⟩

/-- A path that starts with another name does not go on from this one. -/
theorem after_insert_of_ne {names : List String} (hne : ∀ rest, names ≠ name :: rest) :
    after (insert names P) name = after P name := by
  ext rest
  rw [mem_after, mem_after, Finset.mem_insert, or_iff_right (hne rest).symm]

theorem after_insert_of_isWhole (hwhole : isWhole (rest.map .str) = true) :
    after (insert (name :: rest) P) name = after P name := by
  ext names
  rw [mem_after, mem_after, Finset.mem_insert, List.cons.injEq]
  refine and_congr_left fun h => or_iff_right ?_
  rintro ⟨-, rfl⟩
  exact absurd h.2 (by simp [hwhole])

theorem after_insert (hrest : rest ≠ []) (hwhole : isWhole (rest.map .str) = false) :
    after (insert (name :: rest) P) name = insert rest (after P name) := by
  ext names
  rw [Finset.mem_insert, mem_after, mem_after, Finset.mem_insert, List.cons.injEq]
  constructor
  · rintro ⟨⟨-, rfl⟩ | hP, hgoes⟩
    · exact .inl rfl
    · exact .inr ⟨hP, hgoes⟩
  · rintro (rfl | ⟨hP, hgoes⟩)
    · exact ⟨.inl ⟨rfl, rfl⟩, hrest, hwhole⟩
    · exact ⟨.inr hP, hgoes⟩

theorem drops_insert_last (key : Value) :
    drops (insert [name] P) key = (drops P key || key.same (.str name)) := by
  cases key with
  | str t =>
    rw [Bool.eq_iff_iff]
    simp [drops, Value.same, or_comm]
  | _ => rfl

theorem drops_insert_of_ne_nil (hrest : rest ≠ []) (key : Value) :
    drops (insert (name :: rest) P) key = drops P key := by
  cases key with
  | str t => simp [drops, hrest.symm]
  | _ => rfl

/-! ## What is left -/

/-- What is left of a value when the fields at the ends of some paths have been dropped: the value
itself, where no path starts with one of its keys; else a copy that has been made before the address
`bound`, without the keys at which paths end. -/
inductive Remainder (s t : Store) : Nat → Finset (List String) → Value → Value → Prop where
  | same {bound : Nat} {P : Finset (List String)} {v : Value}
    (huntouched : ∀ es, s.entries? v = some es → ¬ Touches P es) : Remainder s t bound P v v
  | copy {bound : Nat} {P : Finset (List String)} {v : Value} {es fs : Entries} {b : Address}
    (hes : s.entries? v = some es) (htouched : Touches P es) (hb : b.index < bound)
    (hcopy : t.cell? b = some (.dict fs))
    (hkeys : fs.map (·.1) = (es.map (·.1)).filter fun key => !drops P key)
    (hothers : fs.others = es.others)
    (hunder : ∀ name x y, es.under name = some x → fs.under name = some y →
      Remainder s t b.index (after P name) x y) : Remainder s t bound P v (.ref b)

/-- What is left of the entries of a mapping, with the copies among it made before `bound`. -/
structure Kept (s t : Store) (bound : Nat) (P : Finset (List String)) (es fs : Entries) : Prop where
  keys : fs.map (·.1) = (es.map (·.1)).filter fun key => !drops P key
  others : fs.others = es.others
  under : ∀ name x y, es.under name = some x → fs.under name = some y →
    Remainder s t bound (after P name) x y

variable {s t u : State} {r : Store} {v w x y : Value} {bound more : Nat}

theorem Remainder.raise (h : Remainder s.store t.store bound P v w) (hle : bound ≤ more) :
    Remainder s.store t.store more P v w := by
  cases h with
  | same huntouched => exact .same huntouched
  | copy hes htouched hb hcopy hkeys hothers hunder =>
    exact .copy hes htouched (Nat.lt_of_lt_of_le hb hle) hcopy hkeys hothers hunder

/-- What is left is left from then on. -/
theorem Remainder.later (h : Remainder s.store t.store bound P v w) (hu : t.KeepsMappings u) :
    Remainder s.store u.store bound P v w := by
  induction h with
  | same huntouched => exact .same huntouched
  | copy hes htouched hb hcopy hkeys hothers _ ih =>
    exact .copy hes htouched hb (hu.dicts _ _ hcopy) hkeys hothers ih

theorem Kept.later (h : Kept s.store t.store bound P es fs) (hle : bound ≤ more)
    (hu : t.KeepsMappings u) : Kept s.store u.store more P es fs :=
  ⟨h.keys, h.others, fun name x y hx hy => ((h.under name x y hx hy).later hu).raise hle⟩

/-- A key that is a text is left unless a path ends at it. -/
theorem Kept.mem_iff (h : Kept s.store t.store bound P es fs) :
    .str name ∈ fs.map (·.1) ↔ .str name ∈ es.map (·.1) ∧ [name] ∉ P := by
  rw [h.keys, List.mem_filter]
  simp [drops]

/-- What is left of a mapping is a mapping of what is left of its entries. -/
theorem Remainder.kept (h : Remainder s.store t.store bound P v w) (ht : s.KeepsMappings t)
    (hes : s.store.entries? v = some es) :
    ∃ fs, t.store.entries? w = some fs ∧ Kept s.store t.store bound P es fs := by
  cases h with
  | same huntouched =>
    have huntouched := huntouched es hes
    refine ⟨es, entries?_later ht hes, ?_, rfl, fun name x y hx hy => ?_⟩
    · refine (List.filter_eq_self.mpr fun key hkey => ?_).symm
      cases key with
      | str name =>
        have hlast : [name] ∉ P := fun hP => huntouched ⟨name, [], hP, hkey⟩
        simp [drops, hlast]
      | _ => rfl
    · rw [hx] at hy
      cases hy
      refine .same fun _ _ ⟨_, _, hrest, _⟩ => huntouched ⟨name, _, (mem_after.mp hrest).1, ?_⟩
      exact Entries.isSome_under.mp (Option.isSome_of_eq_some hx)
  | @copy _ _ _ es' fs b hes' htouched hb hcopy hkeys hothers hunder =>
    cases hes.symm.trans hes'
    exact ⟨fs, Store.entries?_of_dict hcopy, hkeys, hothers, fun name x y hx hy =>
      (hunder name x y hx hy).raise hb.le⟩

/-- A new mapping of what is left of the entries of a mapping is what is left of it. -/
theorem Kept.make (h : Kept s.store t.store bound P es fs) (hes : s.store.entries? v = some es)
    (htouched : Touches P es) (hbound : bound ≤ t.store.size) :
    ∃ y u, (Action.make (.dict fs)).execute t = (.ok y, u) ∧ t.Later u ∧
      Remainder s.store u.store u.store.size P v y := by
  have hlater := t.later_alloc (.dict fs)
  have hkept := h.later hbound hlater.grows.keepsMappings
  refine ⟨_, _, execute_make (.dict fs) t, hlater, .copy hes htouched ?_ (t.store.cell?_alloc _)
    hkept.keys hkept.others hkept.under⟩
  simp [Store.alloc, Store.size]

theorem Remainder.missing_iff (h : Remainder s.store t.store bound P x y) :
    x = .missing ↔ y = .missing := by
  cases h with
  | same => exact .rfl
  | copy hes =>
    refine iff_of_false ?_ nofun
    rintro rfl
    cases hes

/-! ## One path more -/

/-- A path on which there is no key any more changes nothing. -/
theorem Remainder.insert_idle {names : List String} (h : Remainder s.store t.store bound P v w)
    (hidle : ∀ name rest es, names = name :: rest → s.store.entries? v = some es →
      .str name ∈ es.map (·.1) → [name] ∈ P) :
    Remainder s.store t.store bound (insert names P) v w := by
  cases h with
  | same huntouched =>
    refine .same fun es hes ⟨name, rest, hrest, hname⟩ => ?_
    rcases Finset.mem_insert.mp hrest with hnames | hP
    · exact huntouched es hes ⟨name, [], hidle name rest es hnames.symm hes hname, hname⟩
    · exact huntouched es hes ⟨name, rest, hP, hname⟩
  | @copy _ _ _ es fs b hes htouched hb hcopy hkeys hothers hunder =>
    have hkept : Kept s.store t.store b.index P es fs := ⟨hkeys, hothers, hunder⟩
    obtain ⟨name, rest, hrest, hname⟩ := htouched
    refine .copy hes ⟨name, rest, Finset.mem_insert_of_mem hrest, hname⟩ hb hcopy ?_ hothers ?_
    · rw [hkeys]
      refine List.filter_congr fun key hkey => congrArg (!·) ?_
      cases key with
      | str t =>
        refine decide_eq_decide.mpr ⟨Finset.mem_insert_of_mem, fun hlast => ?_⟩
        rcases Finset.mem_insert.mp hlast with hnames | hP
        · exact hidle t [] es hnames.symm hes hkey
        · exact hP
      | _ => rfl
    · intro name x y hx hy
      have hleft := hkept.mem_iff.mp (Entries.isSome_under.mp (Option.isSome_of_eq_some hy))
      rw [after_insert_of_ne]
      · exact hunder name x y hx hy
      · rintro rest rfl
        exact hleft.2 (hidle name rest es rfl hes hleft.1)

/-- Dropping a key leaves what is left when a path ends at it. -/
theorem Kept.erase (h : Kept s.store t.store bound P es fs) (name : String) :
    Kept s.store t.store bound (insert [name] P) es (Entries.erase r fs (.str name)) := by
  refine ⟨?_, (Entries.others_erase_str r).trans h.others, fun key x y hx hy => ?_⟩
  · rw [Entries.keys_erase_str, h.keys, List.filter_filter]
    refine List.filter_congr fun key _ => ?_
    rw [drops_insert_last, Bool.not_or, Bool.and_comm]
  · have hne : key ≠ name := by
      rintro rfl
      rw [← Entries.find?_str r, Entries.find?_erase_str] at hy
      cases hy
    rw [Entries.under_erase_of_ne r hne] at hy
    rw [after_insert_of_ne fun _ h => hne (List.cons.inj h).1.symm]
    exact h.under key x y hx hy

/-- Putting what is left in the place of a value leaves what is left when a path goes on from it. -/
theorem Kept.insert (h : Kept s.store t.store bound P es fs) (hrest : rest ≠ [])
    (hthere : .str name ∈ fs.map (·.1))
    (hleft : ∀ x, es.under name = some x →
      Remainder s.store t.store bound (after (insert (name :: rest) P) name) x y) :
    Kept s.store t.store bound (insert (name :: rest) P) es
      (Entries.insert r fs (.str name) y) := by
  refine ⟨?_, (Entries.others_insert_str r hthere).trans h.others, fun key x z hx hz => ?_⟩
  · rw [Entries.keys_insert_str r hthere, h.keys]
    exact List.filter_congr fun key _ => congrArg (!·) (drops_insert_of_ne_nil hrest key).symm
  · by_cases hne : key = name
    · subst hne
      rw [← Entries.find?_str r, Entries.find?_insert_str] at hz
      cases hz
      exact hleft x hx
    · rw [Entries.under_insert_of_ne r hthere hne] at hz
      rw [after_insert_of_ne fun _ h => hne (List.cons.inj h).1.symm]
      exact h.under key x z hx hz

theorem Kept.touches (h : Kept s.store t.store bound P es fs) (hthere : .str name ∈ fs.map (·.1))
    (rest : List String) : Touches (Insert.insert (name :: rest) P) es :=
  ⟨name, rest, Finset.mem_insert_self _ _, (h.mem_iff.mp hthere).1⟩

/-- A new mapping with what is left in the place of a value is what is left when a path goes on from
the value. -/
theorem Kept.put (h : Kept s.store t.store bound P es fs) (hes : s.store.entries? v = some es)
    (hbound : bound ≤ t.store.size) (hrest : rest ≠ []) (hthere : .str name ∈ fs.map (·.1))
    (hu : t.Later u)
    (hleft : ∀ x, es.under name = some x → Remainder s.store u.store u.store.size
      (after (Insert.insert (name :: rest) P) name) x y) :
    ∃ z u',
      (Action.make (.dict (Entries.insert u.store fs (.str name) y))).execute u = (.ok z, u') ∧
      t.Later u' ∧
      Remainder s.store u'.store u'.store.size (Insert.insert (name :: rest) P) v z := by
  have hlater := h.later (hbound.trans hu.size_le) hu.grows.keepsMappings
  obtain ⟨z, u', hmake, hu', hz⟩ :=
    (hlater.insert hrest hthere hleft).make hes (h.touches hthere rest) (Nat.le_refl _)
  exact ⟨z, u', hmake, hu.trans hu', hz⟩

theorem withoutAt_of_no_mapping (hes : t.store.entries? w = none) :
    (withoutAt ((name :: rest).map .str) w).execute t = (.ok w, t) := by
  rw [List.map_cons, withoutAt, execute_get_bind]
  dsimp only
  rw [hes]
  rfl

theorem withoutAt_of_no_key (hfs : t.store.entries? w = some fs) (hname : fs.under name = none) :
    (withoutAt ((name :: rest).map .str) w).execute t = (.ok w, t) := by
  rw [List.map_cons, withoutAt, execute_get_bind]
  dsimp only
  rw [hfs]
  dsimp only
  rw [isKey_str, Entries.find?_str, hname]
  rfl

/-- Dropping one more field from what is left leaves what is left without it, and changes
nothing. -/
theorem Remainder.withoutAt (hclosed : s.store.Closed) (names : List String) :
    ∀ {P : Finset (List String)} {v w : Value} {bound : Nat} {t : State}, s.store.Knows v →
      s.KeepsMappings t → bound ≤ t.store.size → Remainder s.store t.store bound P v w →
      ∃ y u, (Path.withoutAt (names.map .str) w).execute t = (.ok y, u) ∧ t.Later u ∧
        Remainder s.store u.store u.store.size (insert names P) v y := by
  -- along the names: what is under the next one is what is left there of what was under it
  induction names with
  | nil =>
    intro P v w bound t _ _ hbound h
    exact ⟨w, t, rfl, .refl t, (h.insert_idle fun _ _ _ hnames => by cases hnames).raise hbound⟩
  | cons name rest ih =>
    intro P v w bound t hv ht hbound h
    cases hes : s.store.entries? v with
    | none =>
      have hidle : Remainder s.store t.store bound (insert (name :: rest) P) v w :=
        h.insert_idle fun _ _ es _ hes' => by cases hes.symm.trans hes'
      cases h with
      | same =>
        exact ⟨v, t, withoutAt_of_no_mapping ((ht.entries? hv).trans hes), .refl t,
          hidle.raise hbound⟩
      | copy hes' => cases hes.symm.trans hes'
    | some es =>
      obtain ⟨fs, hfs, hkept⟩ := h.kept ht hes
      cases hfound : fs.under name with
      | none =>
        refine ⟨w, t, withoutAt_of_no_key hfs hfound, .refl t, (h.insert_idle ?_).raise hbound⟩
        intro key keys es' hnames hes' hthere
        cases hnames
        cases hes.symm.trans hes'
        by_contra hlast
        exact Entries.under_eq_none.mp hfound (hkept.mem_iff.mpr ⟨hthere, hlast⟩)
      | some inner =>
        have hthere : .str name ∈ fs.map (·.1) :=
          Entries.isSome_under.mp (Option.isSome_of_eq_some hfound)
        have hinner : Entries.find? t.store fs (.str name) = some inner :=
          (Entries.find?_str _ _ _).trans hfound
        by_cases hrest : rest = []
        · subst hrest
          rw [List.map_singleton, withoutAt_last hfs hinner]
          exact (hkept.erase name).make hes (hkept.touches hthere []) hbound
        · rw [withoutAt_next hrest hfs hinner]
          cases hwhole : isWhole (rest.map .str) with
          | true =>
            -- the rest names the inner value, which stays in its place
            rw [if_pos rfl, execute_pure_bind, execute_get_bind]
            refine hkept.put hes hbound hrest hthere (.refl t) fun x hx => ?_
            rw [after_insert_of_isWhole hwhole]
            exact (hkept.under name x inner hx hfound).raise hbound
          | false =>
            obtain ⟨x, hx⟩ := Option.isSome_iff_exists.mp
              (Entries.isSome_under.mpr (hkept.mem_iff.mp hthere).1)
            have hknown : s.store.Knows x :=
              (hclosed.knows_entry hes (Entries.mem_of_under hx)).2
            obtain ⟨changed, u, hrun, hu, hleft⟩ :=
              ih hknown ht hbound (hkept.under name x inner hx hfound)
            rw [if_neg Bool.false_ne_true, execute_bind_of_ok hrun, execute_get_bind]
            refine hkept.put hes hbound hrest hthere hu fun x' hx' => ?_
            cases hx.symm.trans hx'
            rw [after_insert hrest hwhole]
            exact hleft

/-! ## Elsewhere -/

/-- Names that go another way than some paths lead to the same as before. -/
theorem Remainder.follow_together (hwhole : s.Whole) (hroot : s.store.Rooted)
    (names : List String) :
    ∀ {P : Finset (List String)} {v w : Value} {bound : Nat} {t₁ t₂ : State}, s.Later t₁ →
      s.Later t₂ → (∀ dropped ∈ P, ¬ dropped <+: names ∧ ¬ names <+: dropped) → s.Made v →
      Remainder s.store t₂.store bound P v w →
      Together t₁ t₂ (follow (names.map .str) v) (follow (names.map .str) w) s.Alike := by
  induction names with
  | nil =>
    intro P v w bound t₁ t₂ h₁ h₂ hP hv h
    cases h with
    | same => exact together_follow hwhole hroot [] h₁ h₂ (.made hv)
    | copy _ htouched =>
      obtain ⟨name, rest, hrest, -⟩ := htouched
      exact absurd List.nil_prefix (hP _ hrest).2
  | cons name names ih =>
    intro P v w bound t₁ t₂ h₁ h₂ hP hv h
    cases h with
    | same => exact together_follow hwhole hroot (name :: names) h₁ h₂ (.made hv)
    | @copy _ _ _ es fs b hes htouched hb hcopy hkeys hothers hunder =>
      have hkept : Kept s.store t₂.store b.index P es fs := ⟨hkeys, hothers, hunder⟩
      have hes₁ := entries?_later h₁.grows.keepsMappings hes
      have hfs₂ := Store.entries?_of_dict hcopy
      have hlast : [name] ∉ P := fun hlast => (hP _ hlast).1 (List.prefix_append [name] names)
      have hthere : .str name ∈ fs.map (·.1) ↔ .str name ∈ es.map (·.1) :=
        hkept.mem_iff.trans (and_iff_left hlast)
      have hstep₁ := execute_step name hes₁
      have hstep₂ := execute_step name hfs₂
      rw [Entries.find?_str] at hstep₁ hstep₂
      cases hx : es.under name with
      | none =>
        have hy : fs.under name = none :=
          Entries.under_eq_none.mpr (mt hthere.mp (Entries.under_eq_none.mp hx))
        rw [hx] at hstep₁
        rw [hy] at hstep₂
        exact (together_pure (.made trivial)).congr (follow_cons_missing hstep₁)
          (follow_cons_missing hstep₂)
      | some x =>
        obtain ⟨y, hy⟩ := Option.isSome_iff_exists.mp (Entries.isSome_under.mpr
          (hthere.mpr (Entries.isSome_under.mp (Option.isSome_of_eq_some hx))))
        have hleft := hunder name x y hx hy
        rw [hx] at hstep₁
        rw [hy] at hstep₂
        by_cases hmissing : x = .missing
        · obtain rfl := hmissing
          obtain rfl := hleft.missing_iff.mp rfl
          exact (together_pure (.made trivial)).congr (follow_cons_missing hstep₁)
            (follow_cons_missing hstep₂)
        · refine Together.congr (ih h₁ h₂ (fun dropped hdropped => ?_) ?_ hleft)
            (follow_cons hstep₁ hmissing) (follow_cons hstep₂ (mt hleft.missing_iff.mpr hmissing))
          · obtain ⟨hback, hforth⟩ := hP _ (mem_after.mp hdropped).1
            exact ⟨fun h => hback (List.cons_prefix_cons.mpr ⟨rfl, h⟩),
              fun h => hforth (List.cons_prefix_cons.mpr ⟨rfl, h⟩)⟩
          · exact (hwhole.made_of_entry hes (Entries.mem_of_under hx)).2

/-! ## Main statement -/

/-- Drop the field at a path from an item, and look at another path, neither of the two being the
start of the other.  Every cell is as it was, so the item and all that is in it are; what the item
is left as is a copy without the field, the keys of which are in their order; and the other path
leads in it to what it leads to in the item, or breaks in it as it does there. -/
theorem value_elsewhere {s : State} (hwhole : s.Whole) (hroot : s.store.Rooted) {item : Value}
    (hitem : s.Made item) {p q : String} (hpq : ¬ segments p <+: segments q)
    (hqp : ¬ segments q <+: segments p) :
    ∃ w t, (without item (.str p)).execute s = (.ok w, t) ∧ s.Later t ∧
      Remainder s.store t.store t.store.size {route p} item w ∧
      ∀ s' t', s.Later s' → t.Later t' →
        Together s' t' (value item (.str q)) (value w (.str q)) s.Alike := by
  rw [segments_eq_route, segments_eq_route] at hpq hqp
  have hstart : Remainder s.store s.store s.store.size ∅ item item :=
    .same fun _ _ ⟨_, _, hrest, _⟩ => absurd hrest (Finset.notMem_empty _)
  obtain ⟨w, t, hrun, ht, hleft⟩ :=
    hstart.withoutAt hwhole.closed (route p) hitem.knows (.refl s) (Nat.le_refl _)
  refine ⟨w, t, ?_, ht, hleft, fun s' t' hs' ht' => ?_⟩
  · rw [without_eq_withoutAt]
    exact hrun
  · rw [value_eq_follow, value_eq_follow]
    refine (hleft.later ht'.grows.keepsMappings).follow_together hwhole hroot (route q) hs'
      (ht.trans ht') (fun dropped hdropped => ?_) hitem
    obtain rfl : dropped = route p := by simpa using hdropped
    exact ⟨fun h => hpq (h.map _), fun h => hqp (h.map _)⟩

theorem nestedRecord_whole : nestedRecord.Whole :=
  ⟨by decide, by decide, by decide⟩

theorem nestedRecord_rooted : nestedRecord.store.Rooted :=
  Store.rooted_of_no_parent (by simp [nestedRecord])

/-- Without one field of its field, the record has the other one as before. -/
theorem value_nestedRecord :
    (nestedRecord.Whole ∧ nestedRecord.store.Rooted ∧ nestedRecord.Made (.ref ⟨6⟩) ∧
      ¬ segments "a.b" <+: segments "a." ∧ ¬ segments "a." <+: segments "a.b") ∧
    ∃ w t u, (without (.ref ⟨6⟩) (.str "a.b")).execute nestedRecord = (.ok w, t) ∧
      nestedRecord.Later t ∧
      Remainder nestedRecord.store t.store t.store.size {route "a.b"} (.ref ⟨6⟩) w ∧
      (value w (.str "a.")).execute t = (.ok (.int 2), u) := by
  have hmade : nestedRecord.Made (.ref ⟨6⟩) := by decide
  have hp : segments "a.b" = [.str "a", .str "b"] := by
    rw [segments_eq_route, show route "a.b" = ["a", "b"] by decide +kernel]
    rfl
  have hq : segments "a." = [.str "a", .str ""] := by
    rw [segments_eq_route, show route "a." = ["a", ""] by decide +kernel]
    rfl
  have hpq : ¬ segments "a.b" <+: segments "a." := by simp [hp, hq]
  have hqp : ¬ segments "a." <+: segments "a.b" := by simp [hp, hq]
  obtain ⟨w, t, hrun, ht, hleft, helsewhere⟩ :=
    value_elsewhere nestedRecord_whole nestedRecord_rooted hmade hpq hqp
  have hbefore : (value (.ref ⟨6⟩) (.str "a.")).execute nestedRecord =
      (.ok (.int 2), nestedRecord) := rfl
  cases helsewhere nestedRecord t (.refl _) (.refl _) with
  | failed hv => cases hbefore.symm.trans hv
  | given hv hv' _ _ _ halike =>
    cases hbefore.symm.trans hv
    cases halike
    exact ⟨⟨nestedRecord_whole, nestedRecord_rooted, hmade, hpq, hqp⟩, w, t, _, hrun, ht, hleft,
      hv'⟩

end Recordset.Path
