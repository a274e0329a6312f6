import Recordset.Value.Equal
set_option autoImplicit false

/-!
# Entries under a text

A text is equal to no other value, so what stands under one in a mapping does not depend on the
store in which it is looked up, put in or dropped.
-/

namespace Recordset

theorem Value.same_str {v : Value} {t : String} : v.same (.str t) = true ↔ v = .str t := by
  cases v <;> simp [Value.same]

/-- No other key equals a text, and comparing with a hostile one does not count. -/
theorem Store.sameKey_str (s : Store) (v : Value) (t : String) :
    s.sameKey v (.str t) = v.same (.str t) := by
  unfold sameKey matchesElement sameOr
  cases hsame : v.same (.str t) with
  | true => rfl
  | false =>
    rw [if_neg Bool.false_ne_true]
    unfold equal depth equalAt
    cases v with
    | ref a =>
      dsimp only [Value.number?, view]
      cases s.cell? a with
      | none => rfl
      | some c => cases c <;> rfl
    | str x => exact hsame
    | _ => rfl

namespace Entries

/-- The value of the first key that is a text. -/
def under (es : Entries) (t : String) : Option Value :=
  (List.find? (fun e => e.1.same (.str t)) es).map (·.2)

/-- The entries whose keys are no texts. -/
def others (es : Entries) : Entries := es.filter fun e => e.1.str?.isNone

variable (s r : Store) (es : Entries) (t : String) (v : Value)

theorem find?_str : find? s es (.str t) = es.under t := by
  unfold find? Store.findBy under
  exact congrArg (Option.map (·.2))
    (congrArg (List.find? · es) (funext fun e => s.sameKey_str e.1 t))

/-- What has been dropped is not there any more. -/
theorem find?_erase_str : find? s (erase r es (.str t)) (.str t) = none := by
  rw [find?_str, under, List.find?_eq_none.mpr, Option.map_none]
  intro e he
  simpa [r.sameKey_str] using (List.mem_filter.mp he).2

variable {es t v}

theorem key_of_find? {e : Value × Value}
    (h : List.find? (fun e => e.1.same (.str t)) es = some e) : e.1 = .str t := by
  have hkey := List.find?_some h
  exact Value.same_str.mp hkey

theorem mem_of_under (h : es.under t = some v) : (.str t, v) ∈ es := by
  unfold under at h
  obtain ⟨e, he, rfl⟩ := Option.map_eq_some_iff.mp h
  rw [← key_of_find? he]
  exact List.mem_of_find?_eq_some he

theorem isSome_under : (es.under t).isSome = true ↔ .str t ∈ es.map (·.1) := by
  unfold under
  rw [Option.isSome_map, List.find?_isSome, List.mem_map]
  exact exists_congr fun e => and_congr_right fun _ => Value.same_str

theorem under_eq_none : es.under t = none ↔ .str t ∉ es.map (·.1) := by
  rw [← isSome_under, Option.not_isSome_iff_eq_none]

/-- Dropping a text leaves what stands under another one. -/
theorem under_erase_of_ne {name : String} (hne : name ≠ t) :
    (erase r es (.str t)).under name = es.under name := by
  unfold under erase
  rw [List.find?_filter]
  refine congrArg (Option.map _) (congrArg (List.find? · es) (funext fun e => ?_))
  rw [r.sameKey_str]
  cases hname : e.1.same (.str name) with
  | false => simp
  | true => simp [Value.same_str.mp hname, Value.same, hne]

theorem keys_erase_str :
    (erase r es (.str t)).map (·.1) = (es.map (·.1)).filter fun k => !k.same (.str t) := by
  unfold erase
  rw [List.filter_map]
  exact congrArg _ (List.filter_congr fun e _ => congrArg (!·) (r.sameKey_str e.1 t))

theorem others_erase_str : (erase r es (.str t)).others = es.others := by
  unfold erase others
  rw [List.filter_filter]
  refine List.filter_congr fun e _ => ?_
  rw [r.sameKey_str]
  cases e.1 <;> rfl

/-! ## Putting in under a text -/

/-- An entry, with a value in the place of its own when its key is a text. -/
def put (t : String) (v : Value) (e : Value × Value) : Value × Value :=
  if e.1.same (.str t) then (e.1, v) else e

@[simp] theorem put_fst (t : String) (v : Value) (e : Value × Value) : (put t v e).1 = e.1 := by
  unfold put
  split <;> rfl

theorem put_of_ne {e : Value × Value} (h : e.1 ≠ .str t) : put t v e = e :=
  if_neg fun hkey => h (Value.same_str.mp hkey)

theorem put_of_eq {e : Value × Value} (h : e.1 = .str t) : (put t v e).2 = v := by
  unfold put
  rw [if_pos (Value.same_str.mpr h)]

/-- A value put in under a text that is there takes the place of what is there. -/
theorem insert_str_of_mem (hthere : .str t ∈ es.map (·.1)) :
    insert r es (.str t) v = es.map (put t v) := by
  obtain ⟨e, he, hkey⟩ := List.mem_map.mp hthere
  have hcontains : contains r es (.str t) = true :=
    List.any_eq_true.mpr ⟨e, he, (r.sameKey_str e.1 t).trans (Value.same_str.mpr hkey)⟩
  unfold insert
  rw [if_pos hcontains]
  exact List.map_congr_left fun e _ => by rw [r.sameKey_str, put]

/-- A value put in under a text that is not there comes last. -/
theorem insert_str_of_not_mem (hmissing : .str t ∉ es.map (·.1)) :
    insert r es (.str t) v = es ++ [(.str t, v)] := by
  unfold insert
  rw [if_neg]
  intro hcontains
  obtain ⟨e, he, hkey⟩ := List.any_eq_true.mp hcontains
  rw [r.sameKey_str, Value.same_str] at hkey
  exact hmissing (List.mem_map.mpr ⟨e, he, hkey⟩)

theorem under_map_put (name : String) :
    under (es.map (put t v)) name =
      (List.find? (fun e => e.1.same (.str name)) es).map fun e => (put t v e).2 := by
  unfold under
  rw [List.find?_map, Option.map_map]
  simp only [Function.comp_def, put_fst]

/-- What has been put in is there. -/
theorem find?_insert_str : find? s (insert r es (.str t) v) (.str t) = some v := by
  rw [find?_str]
  by_cases hthere : .str t ∈ es.map (·.1)
  · rw [insert_str_of_mem r hthere, under_map_put]
    obtain ⟨v', hv'⟩ := Option.isSome_iff_exists.mp (isSome_under.mpr hthere)
    obtain ⟨e, he, -⟩ := Option.map_eq_some_iff.mp hv'
    rw [he, Option.map_some, put_of_eq (key_of_find? he)]
  · rw [insert_str_of_not_mem r hthere, under, List.find?_append,
      Option.map_eq_none_iff.mp (under_eq_none.mpr hthere), Option.none_or]
    simp [Value.same]

section

variable (hthere : .str t ∈ es.map (·.1))

include hthere

theorem keys_insert_str : (insert r es (.str t) v).map (·.1) = es.map (·.1) := by
  rw [insert_str_of_mem r hthere, List.map_map]
  exact List.map_congr_left fun e _ => put_fst t v e

/-- Putting in under a text leaves what stands under another one. -/
theorem under_insert_of_ne {name : String} (hne : name ≠ t) :
    (insert r es (.str t) v).under name = es.under name := by
  rw [insert_str_of_mem r hthere, under_map_put]
  refine Option.map_congr fun e he => ?_
  rw [put_of_ne]
  rw [key_of_find? he]
  exact fun h => hne (Value.str.inj h)

theorem others_insert_str : (insert r es (.str t) v).others = es.others := by
  rw [insert_str_of_mem r hthere]
  unfold others
  rw [List.filter_map]
  simp only [Function.comp_def, put_fst]
  refine (List.map_congr_left fun e he => put_of_ne fun hkey => ?_).trans (List.map_id _)
  have htext := (List.mem_filter.mp he).2
  rw [hkey] at htext
  cases htext

end

end Entries

end Recordset
