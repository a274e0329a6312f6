import Recordset.Proofs.Entries
import Recordset.Proofs.Ownership.Basic
import Recordset.Value.Patch
set_option autoImplicit false

/-!
# What a patch makes of a record

A patch whose keys are names is a list of fields.  Merged into a record, a mapping or an object, it
gives what it has under the names that are there already and puts what it has under other names
behind (`merged`).  Nothing else becomes of a record, and merging a patch again changes nothing more
(`merged_merged`).
-/

namespace Recordset

open Recordset.Action

/-! ## Merged fields -/

section

variable {κ : Type} (name? : κ → Option String) (key : String → κ)

/-- The entries of a record with those of a patch: in the place of an entry of the same name, or
behind all others. -/
def merged (old : List (κ × Value)) (patch : List (String × Value)) : List (κ × Value) :=
  (old.map fun e => (e.1, ((name? e.1).bind (patch.lookup ·)).getD e.2)) ++
    (patch.filter fun f => !old.any fun e => name? e.1 == some f.1).map fun f => (key f.1, f.2)

/-- The entries of a record with another one. -/
def mergedOne (old : List (κ × Value)) (f : String × Value) : List (κ × Value) :=
  if old.any fun e => name? e.1 == some f.1 then
    old.map fun e => if name? e.1 == some f.1 then (e.1, f.2) else e
  else old ++ [(key f.1, f.2)]

variable {name? key} {old : List (κ × Value)} {patch : List (String × Value)} {f : String × Value}

theorem lookup_cons_self : (f :: patch).lookup f.1 = some f.2 := by
  rw [List.lookup_cons, beq_self_eq_true]

theorem lookup_cons_of_ne {t : String} (h : t ≠ f.1) : (f :: patch).lookup t = patch.lookup t := by
  rw [List.lookup_cons, beq_eq_false_iff_ne.mpr h]

theorem lookup_eq_none {t : String} (h : t ∉ patch.map Prod.fst) : patch.lookup t = none := by
  induction patch with
  | nil => rfl
  | cons g rest ih =>
    rw [List.map_cons, List.mem_cons, not_or] at h
    rw [lookup_cons_of_ne h.1]
    exact ih h.2

theorem lookup_of_mem (hnames : (patch.map Prod.fst).Nodup) (hf : f ∈ patch) :
    patch.lookup f.1 = some f.2 := by
  induction patch with
  | nil => cases hf
  | cons g rest ih =>
    rw [List.map_cons, List.nodup_cons] at hnames
    rcases List.mem_cons.mp hf with rfl | hf
    · exact lookup_cons_self
    · rw [lookup_cons_of_ne fun h => hnames.1 (h ▸ List.mem_map_of_mem hf)]
      exact ih hnames.2 hf

theorem any_mergedOne (hkey : ∀ t, name? (key t) = some t) (t : String) :
    ((mergedOne name? key old f).any fun e => name? e.1 == some t) =
      ((old.any fun e => name? e.1 == some t) || f.1 == t) := by
  unfold mergedOne
  split
  next hthere =>
    have hsame : ((fun e : κ × Value => name? e.1 == some t) ∘
        fun e => if name? e.1 == some f.1 then (e.1, f.2) else e) =
        fun e => name? e.1 == some t := by
      funext e
      dsimp only [Function.comp]
      split <;> rfl
    rw [List.any_map, hsame]
    cases hft : f.1 == t with
    | false => rw [Bool.or_false]
    | true =>
      rw [eq_of_beq hft] at hthere
      rw [hthere, Bool.or_true]
  next =>
    rw [List.any_append]
    simp [hkey]

/-- Putting the entries of a patch in one after another merges it. -/
theorem foldl_mergedOne (hkey : ∀ t, name? (key t) = some t) :
    ∀ {patch : List (String × Value)} {old : List (κ × Value)}, (patch.map Prod.fst).Nodup →
      patch.foldl (mergedOne name? key) old = merged name? key old patch := by
  intro patch
  induction patch with
  | nil => intro old _; simp [merged]
  | cons f rest ih =>
    intro old hnames
    rw [List.map_cons, List.nodup_cons] at hnames
    have hlast : rest.lookup f.1 = none := lookup_eq_none hnames.1
    rw [List.foldl_cons, ih hnames.2]
    have hbehind : (rest.filter fun g => !(mergedOne name? key old f).any
        fun e => name? e.1 == some g.1) =
        rest.filter fun g => !old.any fun e => name? e.1 == some g.1 := by
      refine List.filter_congr fun g hg => ?_
      have hne : f.1 ≠ g.1 := fun h => hnames.1 (h ▸ List.mem_map_of_mem hg)
      rw [any_mergedOne hkey, beq_eq_false_iff_ne.mpr hne, Bool.or_false]
    unfold merged
    rw [hbehind, List.filter_cons]
    unfold mergedOne
    cases hthere : old.any fun e => name? e.1 == some f.1 with
    | true =>
      rw [if_pos rfl, List.map_map, Bool.not_true, if_neg Bool.false_ne_true]
      congr 1
      refine List.map_congr_left fun e he => ?_
      dsimp only [Function.comp]
      by_cases hname : name? e.1 = some f.1
      · rw [if_pos (beq_iff_eq.mpr hname), hname, Option.bind_some, Option.bind_some, hlast,
          lookup_cons_self]
        rfl
      · rw [if_neg fun h => hname (eq_of_beq h)]
        cases ht : name? e.1 with
        | none => rfl
        | some t =>
          have hne : t ≠ f.1 := fun h => hname (h ▸ ht)
          rw [Option.bind_some, Option.bind_some, lookup_cons_of_ne hne]
    | false =>
      rw [if_neg Bool.false_ne_true, Bool.not_false, if_pos rfl, List.map_append, List.map_cons,
        List.map_cons, List.map_nil, List.append_assoc, hkey]
      congr 1
      · refine List.map_congr_left fun e he => ?_
        have hother : (name? e.1 == some f.1) = false :=
          Bool.eq_false_iff.mpr (List.any_eq_false.mp hthere e he)
        cases hname : name? e.1 with
        | none => rfl
        | some t =>
          rw [hname] at hother
          have ht : t ≠ f.1 := by simpa using hother
          rw [Option.bind_some, Option.bind_some, lookup_cons_of_ne ht]
      · simp [hlast]

/-- Merging a patch again changes nothing more. -/
theorem merged_merged (hkey : ∀ t, name? (key t) = some t) (hnames : (patch.map Prod.fst).Nodup) :
    merged name? key (merged name? key old patch) patch = merged name? key old patch := by
  have hall : ∀ f ∈ patch, ((merged name? key old patch).any fun e => name? e.1 == some f.1) := by
    intro f hf
    unfold merged
    rw [List.any_append, List.any_map, Bool.or_eq_true]
    cases hthere : old.any fun e => name? e.1 == some f.1 with
    | true => exact .inl hthere
    | false =>
      refine .inr (List.any_eq_true.mpr ⟨(key f.1, f.2), List.mem_map_of_mem ?_, by simp [hkey]⟩)
      exact List.mem_filter.mpr ⟨hf, by rw [hthere]; rfl⟩
  have hnone : (patch.filter fun f => !(merged name? key old patch).any
      fun e => name? e.1 == some f.1) = [] :=
    List.filter_eq_nil_iff.mpr fun f hf => by simp [hall f hf]
  have hsame : ∀ e ∈ merged name? key old patch,
      (e.1, ((name? e.1).bind (patch.lookup ·)).getD e.2) = e := by
    intro e he
    refine Prod.ext rfl ?_
    rcases List.mem_append.mp he with hold | hnew
    · obtain ⟨d, -, rfl⟩ := List.mem_map.mp hold
      cases (name? d.1).bind (patch.lookup ·) with
      | none => rfl
      | some x => rfl
    · obtain ⟨f, hf, rfl⟩ := List.mem_map.mp hnew
      rw [hkey, Option.bind_some, lookup_of_mem hnames (List.mem_filter.mp hf).1]
      rfl
  rw [merged, hnone, List.map_nil, List.append_nil]
  exact (List.map_congr_left hsame).trans (List.map_id _)

end

/-! ## Mappings -/

theorem Value.same_str_eq (v : Value) (t : String) : v.same (.str t) = (v.str? == some t) := by
  cases v <;> rfl

namespace Entries

/-- The entries of a patch whose keys are names. -/
def named (patch : List (String × Value)) : Entries := patch.map fun f => (.str f.1, f.2)

/-- The entries of a mapping with those of a patch. -/
def patched (es : Entries) (patch : List (String × Value)) : Entries :=
  merged Value.str? .str es patch

variable {es : Entries} {patch : List (String × Value)}

theorem insert_str (s : Store) (es : Entries) (f : String × Value) :
    insert s es (.str f.1) f.2 = mergedOne Value.str? .str es f := by
  unfold insert contains mergedOne
  simp only [s.sameKey_str, Value.same_str_eq]

theorem insertAll_named (s : Store) (hnames : (patch.map Prod.fst).Nodup) :
    insertAll s es (named patch) = patched es patch := by
  unfold insertAll named
  rw [List.foldl_map]
  simp only [insert_str]
  have hkey : ∀ t, Value.str? (.str t) = some t := fun _ => rfl
  exact foldl_mergedOne hkey hnames

theorem patched_patched (hnames : (patch.map Prod.fst).Nodup) :
    patched (patched es patch) patch = patched es patch := merged_merged (fun _ => rfl) hnames

/-- A patch that is merged into itself stays as it is. -/
theorem patched_named (hnames : (patch.map Prod.fst).Nodup) :
    (named patch).patched patch = named patch := by
  have hnamed : named patch = patched [] patch := by
    simp only [named, patched, merged, List.map_nil, List.any_nil, Bool.not_false, List.nil_append]
    rw [List.filter_eq_self.mpr fun _ _ => rfl]
  rw [hnamed]
  exact patched_patched hnames

end Entries

/-! ## Objects -/

/-- The fields of an object with those of a patch. -/
def patchedFields (fs patch : List (String × Value)) : List (String × Value) :=
  merged some id fs patch

section

variable {fs patch : List (String × Value)}

theorem setField_eq (fs : List (String × Value)) (f : String × Value) :
    setField fs f.1 f.2 = mergedOne some id fs f := by
  have hplace : ∀ g : String × Value, (if g.1 == f.1 then (f.1, f.2) else g) =
      if g.1 == f.1 then (g.1, f.2) else g := by
    intro g
    split
    next hname => rw [eq_of_beq hname]
    next => rfl
  unfold setField mergedOne
  simp only [Option.some_beq_some, id_eq, hplace]
  rfl

theorem foldl_setField (hnames : (patch.map Prod.fst).Nodup) :
    patch.foldl (fun fs f => setField fs f.1 f.2) fs = patchedFields fs patch := by
  simp only [setField_eq]
  have hkey : ∀ t : String, some (id t) = some t := fun _ => rfl
  exact foldl_mergedOne hkey hnames

theorem patchedFields_patchedFields (hnames : (patch.map Prod.fst).Nodup) :
    patchedFields (patchedFields fs patch) patch = patchedFields fs patch :=
  merged_merged (fun _ => rfl) hnames

end

/-! ## Merging into a record -/

namespace Store

variable {s : Store} {a : Address} {c d : Cell}

/-- Writing what a cell holds changes nothing. -/
theorem write_self (hc : s.cell? a = some c) : s.write a c = s := by
  unfold write
  congr 1
  refine Array.ext_getElem? fun i => ?_
  rw [Array.getElem?_setIfInBounds]
  split
  next hi =>
    rw [← hi, if_pos (Array.getElem?_eq_some_iff.mp hc).1]
    exact hc.symm
  next => rfl

/-- What is written last counts. -/
theorem write_write : (s.write a c).write a d = s.write a d := by
  unfold write
  rw [Array.setIfInBounds_setIfInBounds]

end Store

namespace Action

variable {s : State} {a : Address} {v : Value} {es : Entries} {fs patch : List (String × Value)}

/-- The attributes of an object are its fields. -/
theorem execute_setAttributes_object : ∀ {patch : List (String × Value)} {s : State}
    {fs : List (String × Value)}, s.store.cell? a = some (.object fs) →
      (setAttributes (.ref a) (Entries.named patch)).execute s =
        (.ok (), { s with
          store := s.store.write a
            (.object (patch.foldl (fun fs f => setField fs f.1 f.2) fs)) }) := by
  intro patch
  induction patch with
  | nil =>
    intro s fs hobject
    show (Except.ok (), s) = _
    rw [List.foldl_nil, Store.write_self hobject]
  | cons f rest ih =>
    intro s fs hobject
    have hnext : (s.store.write a (.object (setField fs f.1 f.2))).cell? a =
        some (.object (setField fs f.1 f.2)) :=
      Store.cell?_write_of_lt _ (Store.index_lt_of_cell? hobject)
    have hset : (setAttribute (.ref a) f.1 f.2).execute s =
        (.ok (), { s with store := s.store.write a (.object (setField fs f.1 f.2)) }) := by
      unfold setAttribute setCellAttribute
      rw [execute_bind_of_ok (execute_cell hobject)]
      rfl
    show (setAttribute (.ref a) f.1 f.2 >>= fun _ =>
      setAttributes (.ref a) (Entries.named rest)).execute s = _
    rw [execute_bind_of_ok hset, ih hnext, Store.write_write]
    rfl

/-- A mapping is patched in place. -/
theorem execute_merge_dict (hnames : (patch.map Prod.fst).Nodup)
    (hdict : s.store.cell? a = some (.dict es)) :
    (merge (.ref a) (Entries.named patch)).execute s =
      (.ok (.ref a), { s with store := s.store.write a (.dict (es.patched patch)) }) := by
  unfold merge
  rw [execute_get_bind]
  simp only [Store.view, hdict]
  rw [Entries.insertAll_named _ hnames]
  rfl

/-- In the place of a mapping that nobody can change a new one is made. -/
theorem execute_merge_frozen (hnames : (patch.map Prod.fst).Nodup)
    (hfrozen : s.store.cell? a = some (.frozen es)) :
    (merge (.ref a) (Entries.named patch)).execute s =
      (.ok (.ref ⟨s.store.size⟩),
        { s with store := (s.store.alloc (.dict (es.patched patch))).2 }) := by
  unfold merge
  rw [execute_get_bind]
  simp only [Store.view, hfrozen]
  rw [Entries.insertAll_named _ hnames]
  rfl

/-- An object is given fields. -/
theorem execute_merge_object (hnames : (patch.map Prod.fst).Nodup)
    (hobject : s.store.cell? a = some (.object fs)) :
    (merge (.ref a) (Entries.named patch)).execute s =
      (.ok (.ref a), { s with store := s.store.write a (.object (patchedFields fs patch)) }) := by
  unfold merge
  rw [execute_get_bind]
  simp only [Store.view, hobject, hasAttributes]
  rw [if_pos trivial, execute_bind_of_ok (execute_setAttributes_object hobject),
    foldl_setField hnames]
  rfl

/-- A value without attributes is not patched. -/
theorem execute_merge_refused (hentries : s.store.entries? v = none)
    (hattributes : hasAttributes s.store v = false) (p : Entries) :
    (merge v p).execute s = (.error (.refusal (.unmergeable (s.store.kind v))), s) := by
  unfold merge
  rw [execute_get_bind]
  dsimp only
  split
  next hview =>
    rw [Store.entries?, hview] at hentries
    cases hentries
  next hview =>
    rw [Store.entries?, hview] at hentries
    cases hentries
  next =>
    rw [hattributes, if_neg Bool.false_ne_true]
    rfl

end Action

end Recordset
