import Recordset.Proofs.Collection.Updating
import Recordset.Proofs.Query.PlainData
set_option autoImplicit false

/-!
# What an update changes

An update goes from item to item, and what it has done by then is there when it comes to the next
one: a list with other items in it, records with other fields.  An item further on does not see any
of this when it is not reached from another item, and neither does a query or a callback that
reaches no item.  So the items that are patched are those that the query selects beforehand, and
each of them is patched as if it were the only one.

`Collection.update_separate` is the main statement.
-/

namespace Recordset

open Recordset.Action

/-! ## Merging into a record -/

namespace Store

/-- What a patch makes of a record.  A mapping and an object are changed in place; a mapping that
nobody can change stays as it is, and a new one comes in its place. -/
inductive Merged (patch : List (String × Value)) (s t : Store) : Value → Value → Prop where
  | dict {a : Address} {es : Entries} (hbefore : s.cell? a = some (.dict es))
    (hafter : t.cell? a = some (.dict (es.patched patch))) : Merged patch s t (.ref a) (.ref a)
  | frozen {a b : Address} {es : Entries} (hbefore : s.cell? a = some (.frozen es))
    (hafter : t.cell? a = some (.frozen es)) (hnew : s.size ≤ b.index)
    (hthere : t.cell? b = some (.dict (es.patched patch))) : Merged patch s t (.ref a) (.ref b)
  | object {a : Address} {fs : List (String × Value)} (hbefore : s.cell? a = some (.object fs))
    (hafter : t.cell? a = some (.object (patchedFields fs patch))) :
    Merged patch s t (.ref a) (.ref a)

/-- A record is in a cell. -/
theorem IsRecord.exists_cell {s : Store} {a : Address} (h : s.IsRecord (.ref a)) :
    ∃ c, s.cell? a = some c := by
  cases h with
  | dict hdict => exact ⟨_, hdict⟩
  | frozen hfrozen => exact ⟨_, hfrozen⟩
  | object hobject => exact ⟨_, hobject⟩

/-- Neither a collection nor its list is a record. -/
theorem Holds.not_isRecord {s : Store} {a : Address} {c : Collection} {xs : List Value}
    (h : s.Holds a c xs) : ¬ s.IsRecord (.ref a) ∧ ¬ s.IsRecord (.ref c.list) := by
  constructor
  · rintro (hthere | hthere | hthere) <;> cases h.cell.symm.trans hthere
  · rintro (hthere | hthere | hthere) <;> cases h.list.symm.trans hthere

end Store

/-- Mappings keep their entries while nothing that holds items or fields changes. -/
theorem State.Extends.keepsMappings {s t : State} (h : s.Extends t) : s.KeepsMappings t := by
  refine ⟨h.evolves, fun a es hes => ?_⟩
  obtain ⟨d, hd, hstays⟩ := h.cells a _ hes
  cases hstays
  exact hd

section

variable {D E : Set Address} {patch : List (String × Value)} {x y v : Value} {s t u w : State}

/-- A patch is merged into a record, and only into that. -/
theorem execute_merge_record (hnames : (patch.map Prod.fst).Nodup) (hx : s.store.IsRecord x) :
    ∃ y t, (merge x (Entries.named patch)).execute s = (.ok y, t) ∧
      s.store.Merged patch t.store x y ∧ State.ChangesAt {a | x = .ref a} s t := by
  have hown : ∀ a : Address, {a} ⊆ {b | Value.ref a = .ref b} := by
    rintro a b rfl
    rfl
  cases hx with
  | @dict a es hdict =>
    refine ⟨.ref a, _, execute_merge_dict hnames hdict, .dict hdict ?_, ?_⟩
    · exact Store.cell?_write_of_lt _ (Store.index_lt_of_cell? hdict)
    · exact (s.changesAt_write a _).mono (hown a)
  | @frozen a es hfrozen =>
    refine ⟨.ref ⟨s.store.size⟩, _, execute_merge_frozen hnames hfrozen, ?_, s.changesAt_alloc _⟩
    exact .frozen hfrozen ((s.grows_alloc _).cells _ _ hfrozen) (Nat.le_refl _)
      (s.store.cell?_alloc _)
  | @object a fs hobject =>
    refine ⟨.ref a, _, execute_merge_object hnames hobject, .object hobject ?_, ?_⟩
    · exact Store.cell?_write_of_lt _ (Store.index_lt_of_cell? hobject)
    · exact (s.changesAt_write a _).mono (hown a)

namespace State

/-- A cell that is not among those that change holds later what it holds now. -/
theorem ChangesAt.view (h : ChangesAt D s t) (hv : ∀ a, v = .ref a → a ∉ D) {c : Cell}
    (hc : s.store.view v = some c) : t.store.view v = some c := by
  cases v with
  | ref a => exact h.cells a c hc (hv a rfl)
  | _ => cases hc

theorem ChangesAt.entries? (h : ChangesAt D s t) (hv : ∀ a, v = .ref a → a ∉ D) {es : Entries}
    (hes : s.store.entries? v = some es) : t.store.entries? v = some es := by
  unfold Store.entries?
  rcases Store.view_of_entries? hes with hview | hview <;> rw [h.view hv hview]

theorem ChangesAt.isCallable (h : ChangesAt D s t) (hv : ∀ a, v = .ref a → a ∉ D)
    (hcallable : s.store.isCallable v = true) : t.store.isCallable v = true := by
  unfold Store.isCallable at hcallable ⊢
  split at hcallable
  · rfl
  · rfl
  · rfl
  · cases hview : s.store.view v with
    | none =>
      rw [hview] at hcallable
      cases hcallable
    | some c =>
      rw [hview] at hcallable
      rw [h.view hv hview]
      exact hcallable

theorem ChangesAt.isRecord (h : ChangesAt D s t) (hx : ∀ a, x = .ref a → a ∉ D)
    (hrecord : s.store.IsRecord x) : t.store.IsRecord x := by
  cases hrecord with
  | dict hdict => exact .dict (h.cells _ _ hdict (hx _ rfl))
  | frozen hfrozen => exact .frozen (h.cells _ _ hfrozen (hx _ rfl))
  | object hobject => exact .object (h.cells _ _ hobject (hx _ rfl))

/-- What a patch makes of a record is seen from an earlier state and in a later one, when the
changes before and after were at other cells. -/
theorem ChangesAt.merged (hbefore : ChangesAt D u s) (hafter : ChangesAt E t w)
    (h : s.store.Merged patch t.store x y) (hrecord : u.store.IsRecord x)
    (hx : ∀ a, x = .ref a → a ∉ D ∧ a ∉ E) (hE : ∀ a ∈ E, a.index < u.store.size) :
    u.store.Merged patch w.store x y := by
  have hcell : ∀ {a c}, x = .ref a → s.store.cell? a = some c → u.store.cell? a = some c := by
    rintro a c rfl hc
    obtain ⟨d, hd⟩ := hrecord.exists_cell
    rw [hd, ← hc, hbefore.cells _ _ hd (hx _ rfl).1]
  cases h with
  | dict hdict hpatched => exact .dict (hcell rfl hdict) (hafter.cells _ _ hpatched (hx _ rfl).2)
  | object hobject hpatched =>
    exact .object (hcell rfl hobject) (hafter.cells _ _ hpatched (hx _ rfl).2)
  | @frozen a b es hfrozen hkept hnew hthere =>
    have hsize : u.store.size ≤ b.index := hbefore.size_le.trans hnew
    refine .frozen (hcell rfl hfrozen) (hafter.cells _ _ hkept (hx _ rfl).2) hsize
      (hafter.cells _ _ hthere fun hb => ?_)
    exact absurd (hE b hb) (Nat.not_lt.mpr hsize)

end State

end

namespace Collection

variable {caller : Caller} {a : Address} {c : Collection} {xs : List Value}
  {test : Option Expression} {spec p v x y : Value} {fields : Option (List (String × Value))}
  {keep : Nat → Bool} {W : Nat → Set Address} {i : Nat} {s t u w : State}

/-! ## From item to item -/

/-- The cells that an update has changed before it comes to a position: the list, and those that it
changes for the selected items in front. -/
def front (list : Address) (keep : Nat → Bool) (W : Nat → Set Address) (i : Nat) : Set Address :=
  {b | (0 < i ∧ b = list) ∨ ∃ j < i, keep j = true ∧ b ∈ W j}

/-- The cells that an update still changes once it has found what to put at a position. -/
def back (list : Address) (keep : Nat → Bool) (W : Nat → Set Address) (i : Nat) : Set Address :=
  {b | b = list ∨ ∃ j, i < j ∧ keep j = true ∧ b ∈ W j}

/-- The cells that an update changes. -/
def touched (list : Address) (keep : Nat → Bool) (W : Nat → Set Address) : Set Address :=
  {b | b = list ∨ ∃ j, keep j = true ∧ b ∈ W j}

theorem front_subset_succ (list : Address) (keep : Nat → Bool) (W : Nat → Set Address) (i : Nat) :
    front list keep W i ⊆ front list keep W (i + 1) := by
  rintro b (⟨-, hb⟩ | ⟨j, hj, hkeep, hb⟩)
  · exact .inl ⟨Nat.succ_pos i, hb⟩
  · exact .inr ⟨j, Nat.lt_succ_of_lt hj, hkeep, hb⟩

theorem front_subset_touched (list : Address) (keep : Nat → Bool) (W : Nat → Set Address)
    (i : Nat) :
    front list keep W i ⊆ touched list keep W := by
  rintro b (⟨-, hb⟩ | ⟨j, -, hkeep, hb⟩)
  · exact .inl hb
  · exact .inr ⟨j, hkeep, hb⟩

/-- A value was found for an item when the update came there, and then the update went on. -/
def Obtained (caller : Caller) (p : Value) (list : Address) (keep : Nat → Bool)
    (W : Nat → Set Address) (u t : State) (i : Nat) (x y : Value) : Prop :=
  ∃ v w, u.ChangesAt (front list keep W i) v ∧ (updated caller p x i).execute v = (.ok y, w) ∧
    w.ChangesAt (back list keep W i) t

theorem Obtained.later {list : Address} (h : Obtained caller p list keep W u t i x y)
    (ht : t.ChangesAt (back list keep W i) w) : Obtained caller p list keep W u w i x y := by
  obtain ⟨v, z, hv, hrun, hz⟩ := h
  exact ⟨v, z, hv, hrun, hz.trans ht⟩

/-- An update has come to a position. -/
structure Midway (caller : Caller) (a : Address) (c : Collection) (xs : List Value) (p : Value)
    (keep : Nat → Bool) (W : Nat → Set Address) (u : State) (i : Nat) (t : State) : Prop where
  changes : u.ChangesAt (front c.list keep W i) t
  holds : ∃ ys, t.store.Holds a c ys ∧ ys.length = xs.length ∧
    (∀ j, i ≤ j ∨ keep j = false → ys[j]? = xs[j]?) ∧
    ∀ j x, xs[j]? = some x → j < i → keep j = true →
      ∃ y, ys[j]? = some y ∧ Obtained caller p c.list keep W u t j x y

theorem Midway.start (hholds : u.store.Holds a c xs) : Midway caller a c xs p keep W u 0 u :=
  ⟨.refl u, xs, hholds, rfl, fun _ _ => rfl, fun _ _ _ hj => absurd hj (Nat.not_lt_zero _)⟩

/-- To look at an item changes nothing that an update has done. -/
theorem Midway.look (h : Midway caller a c xs p keep W u i t) (ht : t.ChangesAt ∅ w) :
    Midway caller a c xs p keep W u i w := by
  obtain ⟨ys, hholds, hlength, hrest, hfound⟩ := h.holds
  refine ⟨h.changes.trans (ht.mono (Set.empty_subset _)), ys, hholds.extends ht.grows.extends,
    hlength, hrest, fun j x hx hj hselected => ?_⟩
  obtain ⟨y, hy, hobtained⟩ := hfound j x hx hj hselected
  exact ⟨y, hy, hobtained.later (ht.mono (Set.empty_subset _))⟩

/-- An item that is not selected is passed over. -/
theorem Midway.pass (h : Midway caller a c xs p keep W u i t) (hkeep : keep i = false) :
    Midway caller a c xs p keep W u (i + 1) t := by
  obtain ⟨ys, hholds, hlength, hrest, hfound⟩ := h.holds
  refine ⟨h.changes.mono (front_subset_succ _ _ _ i), ys, hholds, hlength,
    fun j hj => hrest j (hj.imp_left Nat.le_of_succ_le), fun j x hx hj hselected => ?_⟩
  rcases Nat.lt_succ_iff_lt_or_eq.mp hj with hj | rfl
  · exact hfound j x hx hj hselected
  · cases hkeep.symm.trans hselected

/-- What is found for a selected item comes in its place. -/
theorem Midway.put (h : Midway caller a c xs p keep W u i t) (hkeep : keep i = true)
    (hx : xs[i]? = some x) (ha : a ∉ W i) (hlist : c.list ∉ W i)
    (hrun : (updated caller p x i).execute t = (.ok y, w)) (hw : t.ChangesAt (W i) w) :
    ∃ z, (assign (.ref a) (.int i) y).execute w = (.ok (), z) ∧
      Midway caller a c xs p keep W u (i + 1) z := by
  obtain ⟨ys, hholds, hlength, hrest, hfound⟩ := h.holds
  have hthere : w.store.Holds a c ys :=
    ⟨hw.cells _ _ hholds.cell ha, hw.cells _ _ hholds.list hlist⟩
  have hi : i < ys.length := hlength ▸ (List.getElem?_eq_some_iff.mp hx).1
  have hwrite := w.changesAt_write c.list (.list (ys.set i y))
  have hstep := (hw.mono Set.subset_union_left).trans (hwrite.mono Set.subset_union_right)
  have hfront : W i ∪ {c.list} ⊆ front c.list keep W (i + 1) := by
    rintro b (hb | rfl)
    · exact .inr ⟨i, Nat.lt_succ_self i, hkeep, hb⟩
    · exact .inl ⟨Nat.succ_pos i, rfl⟩
  refine ⟨_, execute_assign hthere hi y, ?_, ys.set i y, hthere.write _, ?_, ?_, ?_⟩
  · exact (h.changes.mono (front_subset_succ _ _ _ i)).trans (hstep.mono hfront)
  · rw [List.length_set, hlength]
  · intro j hj
    have hji : i ≠ j := by
      rintro rfl
      rcases hj with hj | hj
      · exact Nat.not_succ_le_self i hj
      · cases hkeep.symm.trans hj
    rw [List.getElem?_set_ne hji]
    exact hrest j (hj.imp_left Nat.le_of_succ_le)
  · intro j v hv hj hselected
    rcases Nat.lt_succ_iff_lt_or_eq.mp hj with hj | rfl
    · obtain ⟨d, hd, hobtained⟩ := hfound j v hv hj hselected
      have hback : W i ∪ {c.list} ⊆ back c.list keep W j := by
        rintro b (hb | rfl)
        · exact .inr ⟨i, hj, hkeep, hb⟩
        · exact .inl rfl
      rw [List.getElem?_set_ne (Nat.ne_of_gt hj)]
      exact ⟨d, hd, hobtained.later (hstep.mono hback)⟩
    · cases hx.symm.trans hv
      have hlast : ({c.list} : Set Address) ⊆ back c.list keep W j := by
        rintro b rfl
        exact .inl rfl
      exact ⟨y, List.getElem?_set_self hi, t, w, h.changes, hrun, hwrite.mono hlast⟩

section

variable
  (htest : ∀ i x t, xs[i]? = some x → u.ChangesAt (front c.list keep W i) t →
    ∃ w, (concerns caller test x i).execute t = (.ok (keep i), w) ∧ t.ChangesAt ∅ w)
  (hput : ∀ i x t, xs[i]? = some x → u.ChangesAt (front c.list keep W i) t →
    ∃ y w, (updated caller p x i).execute t = (.ok y, w) ∧ t.ChangesAt (W i) w)
  (hW : ∀ i, a ∉ W i ∧ c.list ∉ W i)
include htest hput hW

/-- An update passes an item over or puts another one in its place. -/
theorem Midway.step (h : Midway caller a c xs p keep W u i t) (hx : xs[i]? = some x) :
    ∃ w, (updateOne caller a test p x i).execute t = (.ok (), w) ∧
      Midway caller a c xs p keep W u (i + 1) w := by
  obtain ⟨w, htested, hw⟩ := htest i x t hx h.changes
  have hlooked := h.look hw
  unfold updateOne
  rw [execute_bind_of_ok htested]
  cases hkeep : keep i with
  | false => exact ⟨w, rfl, hlooked.pass hkeep⟩
  | true =>
    obtain ⟨y, z, hupdated, hz⟩ := hput i x w hx hlooked.changes
    rw [if_pos rfl, execute_bind_of_ok hupdated]
    exact hlooked.put hkeep hx (hW i).1 (hW i).2 hupdated hz

/-- An update comes to its end. -/
theorem fold_update (hholds : u.store.Holds a c xs) :
    ∃ t, (fold a () fun _ item i => updateOne caller a test p item i).execute u = (.ok (), t) ∧
      Midway caller a c xs p keep W u xs.length t := by
  have hlists : ∀ i (_ : Unit) t, Midway caller a c xs p keep W u i t →
      ∃ ys, t.store.Lists a ys ∧ ys.length = xs.length ∧ ys[i]? = xs[i]? := by
    intro i _ t h
    obtain ⟨ys, hthere, hlength, hrest, -⟩ := h.holds
    exact ⟨ys, ⟨c, hthere⟩, hlength, hrest i (.inl (Nat.le_refl i))⟩
  have hstep : ∀ i (hi : i < xs.length) (_ : Unit) t, Midway caller a c xs p keep W u i t →
      ∃ next w, (updateOne caller a test p xs[i] i).execute t = (.ok next, w) ∧
        Midway caller a c xs p keep W u (i + 1) w := by
    intro i hi _ t h
    obtain ⟨w, hrun, hnext⟩ := h.step htest hput hW (List.getElem?_eq_getElem hi)
    exact ⟨(), w, hrun, hnext⟩
  have hfold : ∃ last t, (fold a () fun _ item i => updateOne caller a test p item i).execute u =
      (.ok last, t) ∧ Midway caller a c xs p keep W u xs.length t :=
    fold_changing_ok (fun i _ t => Midway caller a c xs p keep W u i t) hlists (.start hholds) hstep
  obtain ⟨_, t, hrun, hend⟩ := hfold
  exact ⟨t, hrun, hend⟩

end

/-! ## Separate items -/

/-- No item of a collection is reached from another one, from a query or from a patch. -/
structure Separate (s : State) (xs : List Value) (spec p : Value) : Prop where
  items : ∀ (i j : Nat) (x y : Value), xs[i]? = some x → xs[j]? = some y → s.Reaches x y → j = i
  query : ∀ x ∈ xs, ¬ s.Reaches spec x
  patch : ∀ x ∈ xs, ¬ s.Reaches p x

/-- The cells that an update changes for the item at a position besides the list: that of the item,
if it is given fields. -/
def written (fields : Option (List (String × Value))) (xs : List Value) (i : Nat) : Set Address :=
  {b | fields.isSome = true ∧ xs[i]? = some (.ref b)}

/-- An update selects the items of a query, each by what the item and the query reach alone, and
without changing anything. -/
structure Decided (caller : Caller) (spec : Value) (xs : List Value) (keep : Nat → Bool)
    (test : Option Expression) (s u : State) : Prop where
  stays : s.Extends u
  answers : ∀ (i : Nat) (x : Value) (D : Set Address) (t : State), xs[i]? = some x →
    s.Avoids x D → s.Avoids spec D → u.ChangesAt D t →
      ∃ w, (concerns caller test x i).execute t = (.ok (keep i), w) ∧ t.ChangesAt ∅ w

/-- A patch gives fields, or is a callback that gives a value for each item by what the item and the
callback reach alone, and without changing anything. -/
inductive Provides (caller : Caller) (p : Value) (xs : List Value) (s u : State) :
    Option (List (String × Value)) → Prop where
  | fields {patch : List (String × Value)}
    (hentries : s.store.entries? p = some (Entries.named patch))
    (hnames : (patch.map Prod.fst).Nodup) : Provides caller p xs s u (some patch)
  | callback (hcallable : s.store.isCallable p = true)
    (hcalls : ∀ (i : Nat) (x : Value) (D : Set Address) (t : State), xs[i]? = some x →
      s.Avoids x D → s.Avoids p D → u.ChangesAt D t →
        ∃ y w, (Callback.call caller p 2 [x, .int i]).execute t = (.ok y, w) ∧
          t.ChangesAt ∅ w) : Provides caller p xs s u none

/-- What is found for an item: what the patch makes of it, or what the callback gives. -/
inductive Makes (caller : Caller) (p : Value) (i : Nat) (x : Value) (t w : State) :
    Option (List (String × Value)) → Value → Prop where
  | merged {patch : List (String × Value)} {y : Value} (h : t.store.Merged patch w.store x y)
    (hw : t.ChangesAt {b | x = .ref b} w) : Makes caller p i x t w (some patch) y
  | called {y : Value} (h : (Callback.call caller p 2 [x, .int i]).execute t = (.ok y, w))
    (hw : t.ChangesAt ∅ w) : Makes caller p i x t w none y

/-- What has come in the place of a selected item: what the patch makes of it, or what the callback
gave for it when no cell but the list of the collection had been changed. -/
inductive Replaced (caller : Caller) (p : Value) (list : Address) (u t : State) (i : Nat)
    (x : Value) : Option (List (String × Value)) → Value → Prop where
  | merged {patch : List (String × Value)} {y : Value}
    (h : u.store.Merged patch t.store x y) : Replaced caller p list u t i x (some patch) y
  | called {y : Value} {v w : State} (hbefore : u.ChangesAt {list} v)
    (hcall : (Callback.call caller p 2 [x, .int i]).execute v = (.ok y, w))
    (hafter : w.ChangesAt {list} t) : Replaced caller p list u t i x none y

section

variable (hrecords : ∀ x ∈ xs, s.store.IsRecord x)
include hrecords

/-- Besides the list only records are changed. -/
theorem not_mem_written {b : Address} (hb : ¬ s.store.IsRecord (.ref b)) (i : Nat) :
    b ∉ written fields xs i := fun h => hb (hrecords _ (List.mem_of_getElem? h.2))

theorem lt_size_of_mem_written {b : Address} (h : b ∈ written fields xs i) :
    b.index < s.store.size := by
  obtain ⟨d, hd⟩ := (hrecords _ (List.mem_of_getElem? h.2)).exists_cell
  exact Store.index_lt_of_cell? hd

/-- What an update has changed before it comes to an item is not reached from there. -/
theorem avoids_front (hholds : s.store.Holds a c xs) (hx : xs[i]? = some x)
    (hv : ∀ j y, xs[j]? = some y → s.Reaches v y → j = i) :
    s.Avoids v (front c.list keep (written fields xs) i) := by
  rintro b (⟨hi, rfl⟩ | ⟨j, hj, -, hb⟩)
  · refine ⟨Store.index_lt_of_cell? hholds.list, fun hreach => ?_⟩
    have hlt : 0 < xs.length := Nat.lt_trans hi (List.getElem?_eq_some_iff.mp hx).1
    have hfirst := List.getElem?_eq_getElem hlt
    have hzero : 0 = i := hv 0 _ hfirst (hreach.part hholds.list (List.mem_of_getElem? hfirst))
    exact Nat.ne_of_lt hi hzero
  · exact ⟨lt_size_of_mem_written hrecords hb, fun hreach => Nat.ne_of_lt hj (hv j _ hb.2 hreach)⟩

theorem Separate.item_avoids (h : Separate s xs spec p) (hholds : s.store.Holds a c xs)
    (hx : xs[i]? = some x) : s.Avoids x (front c.list keep (written fields xs) i) :=
  avoids_front hrecords hholds hx fun j y hy => h.items i j x y hx hy

/-- What reaches no item does not reach what an update has changed. -/
theorem avoids_front_of_not_reaches (hholds : s.store.Holds a c xs) (hx : xs[i]? = some x)
    (hv : ∀ y ∈ xs, ¬ s.Reaches v y) : s.Avoids v (front c.list keep (written fields xs) i) :=
  avoids_front hrecords hholds hx fun _ y hy hreach =>
    absurd hreach (hv y (List.mem_of_getElem? hy))

end

/-! ## What is put in the place of an item -/

theorem execute_updated_fields {es : Entries} (h : t.store.entries? p = some es) :
    (updated caller p x i).execute t = (merge x es).execute t := by
  unfold updated
  rw [execute_get_bind, h]

theorem execute_updated_callback (h : t.store.isCallable p = true) :
    (updated caller p x i).execute t = (Callback.call caller p 2 [x, .int i]).execute t := by
  unfold updated
  rw [execute_get_bind, Query.entries?_of_isCallable h]

theorem Provides.isPatch (h : Provides caller p xs s u fields) :
    (s.store.isCallable p || s.store.isMapping p) = true := by
  cases h with
  | fields hentries _ => rw [Store.isMapping, hentries, Option.isSome_some, Bool.or_true]
  | callback hcallable _ => rw [hcallable, Bool.true_or]

section

variable (hholds : s.store.Holds a c xs) (hrecords : ∀ x ∈ xs, s.store.IsRecord x)
  (hseparate : Separate s xs spec p) (hu : s.Extends u)
  (hp : Provides caller p xs s u fields)
include hholds hrecords hseparate hu hp

/-- Something is found for each item when the update comes there. -/
theorem updated_ok (hx : xs[i]? = some x)
    (ht : u.ChangesAt (front c.list keep (written fields xs) i) t) :
    ∃ y w, (updated caller p x i).execute t = (.ok y, w) ∧ Makes caller p i x t w fields y := by
  have hxapart : s.Avoids x (front c.list keep (written fields xs) i) :=
    hseparate.item_avoids hrecords hholds hx
  have hpapart : s.Avoids p (front c.list keep (written fields xs) i) :=
    avoids_front_of_not_reaches hrecords hholds hx hseparate.patch
  cases hp with
  | @fields patch hentries hnames =>
    have hthere : t.store.entries? p = some (Entries.named patch) := by
      refine ht.entries? hpapart.not_mem ?_
      rcases Store.view_of_entries? hentries with hview | hview <;>
        exact (hu.keepsMappings.entries? (Store.knows_of_view hview)).trans hentries
    have hrecord : t.store.IsRecord x :=
      ht.isRecord hxapart.not_mem (hu.evolves.isRecord (hrecords x (List.mem_of_getElem? hx)))
    obtain ⟨y, w, hrun, hmerged, hw⟩ := execute_merge_record hnames hrecord
    exact ⟨y, w, (execute_updated_fields hthere).trans hrun, .merged hmerged hw⟩
  | callback hcallable hcalls =>
    have hthere : t.store.isCallable p = true := ht.isCallable hpapart.not_mem
      ((hu.evolves.isCallable (Store.knows_of_isCallable hcallable)).trans hcallable)
    obtain ⟨y, w, hrun, hw⟩ := hcalls i x _ t hx hxapart hpapart ht
    exact ⟨y, w, (execute_updated_callback hthere).trans hrun, .called hrun hw⟩

/-- What was found for an item is what has to come in its place. -/
theorem Obtained.replaced (hx : xs[i]? = some x)
    (h : Obtained caller p c.list keep (written fields xs) u t i x y) :
    Replaced caller p c.list u t i x fields y := by
  have hxapart : s.Avoids x (front c.list keep (written fields xs) i) :=
    hseparate.item_avoids hrecords hholds hx
  obtain ⟨v, w, hv, hrun, hw⟩ := h
  obtain ⟨_, _, hfound, hmakes⟩ := updated_ok hholds hrecords hseparate hu hp hx hv
  cases hfound.symm.trans hrun
  cases hmakes with
  | merged hmerged _ =>
    refine .merged (hv.merged hw hmerged ?_ ?_ ?_)
    · exact hu.evolves.isRecord (hrecords x (List.mem_of_getElem? hx))
    · rintro b rfl
      refine ⟨hxapart.not_mem b rfl, ?_⟩
      rintro (hlist | ⟨j, hj, -, hb⟩)
      · exact hholds.not_isRecord.2 (hlist ▸ hrecords _ (List.mem_of_getElem? hx))
      · exact Nat.ne_of_gt hj (hseparate.items i j _ _ hx hb.2 (.refl s _))
    · rintro b (rfl | ⟨j, -, -, hb⟩)
      · exact Nat.lt_of_lt_of_le (Store.index_lt_of_cell? hholds.list) hu.evolves.size_le
      · exact Nat.lt_of_lt_of_le (lt_size_of_mem_written hrecords hb) hu.evolves.size_le
  | called hcall hlast =>
    have hlist : ∀ {b : Address}, b ∈ front c.list keep (written none xs) i ∨
        b ∈ back c.list keep (written none xs) i → b = c.list := by
      rintro b ((⟨-, hb⟩ | ⟨_, _, _, ⟨hb, -⟩⟩) | (hb | ⟨_, _, _, ⟨hb, -⟩⟩))
      · exact hb
      · cases hb
      · exact hb
      · cases hb
    exact .called (hv.mono fun b hb => hlist (.inl hb)) hcall (hw.mono fun b hb => hlist (.inr hb))

end

/-! ## Selections -/

/-- Without a query all items are selected. -/
theorem decided_all (caller : Caller) (xs : List Value) (s : State) :
    Decided caller .null xs (fun _ => true) none s s :=
  ⟨.refl s, fun _ _ _ t _ _ _ _ => ⟨t, rfl, .refl t⟩⟩

/-- Plain data that has been reached from a value before, or has been made since. -/
structure Drawn (s u : State) (spec v : Value) : Prop where
  data : u.store.IsData v
  cells : ∀ b, u.Reaches v (.ref b) → s.store.size ≤ b.index ∨ s.Reaches spec (.ref b)

/-- A query of terms that draw on it selects items of plain data, if it does not fail for one of
them. -/
theorem decided_of_terms {e : Expression} (hu : s.Extends u)
    (hset : ∀ m ∈ u.store.marks, m.2.2.isSimple = true) (hitems : ∀ x ∈ xs, s.store.IsData x)
    (he : e.OfTerms (Drawn s u spec))
    (hanswers : ∀ (i : Nat) (x : Value), xs[i]? = some x →
      ∃ w, (e.test caller x i).execute u = (.ok (keep i), w)) :
    Decided caller spec xs keep (some e) s u := by
  refine ⟨hu, fun i x D t hx hxapart hapart ht => ?_⟩
  have hitem : u.store.Common t.store x := by
    refine (hitems x (List.mem_of_getElem? hx)).common fun b c hreach hc hdata => ?_
    obtain ⟨d, hd, hstays⟩ := hu.cells b c hc
    obtain rfl := hstays.eq_of_isData hdata
    exact ⟨hd, ht.cells b _ hd fun hb => (hxapart b hb).2 hreach⟩
  have hterms : e.OfTerms (u.store.Common t.store) := by
    refine he.mono fun v hv => hv.data.common fun b c hreach hc _ => ⟨hc, ht.cells b c hc ?_⟩
    rcases hv.cells b hreach with hnew | hold
    · exact fun hb => Nat.not_lt.mpr hnew (hapart b hb).1
    · exact fun hb => (hapart b hb).2 hold
  obtain ⟨w, hrun⟩ := hanswers i x hx
  obtain ⟨r, hthen, hnow⟩ := Expression.test_common ht.size_le ht.marks
    (fun m hm => .simple (hset m hm)) caller hterms hitem i
  cases hrun.symm.trans hthen
  exact ⟨t, hnow, .refl t⟩

/-! ## Main statement -/

/-- The items that an update selects are those that the query keeps beforehand. -/
theorem Decided.gives_filter (h : Decided caller spec xs keep test s u)
    (hholds : s.store.Holds a c xs)
    (hquery : (queryOf caller a spec).execute s = (.ok test, u)) (hspec : spec ≠ .null) :
    Gives (filter caller a spec) (pick keep xs) s := by
  have hcompiled : ∃ e, test = some e ∧ (compile caller a spec).execute s = (.ok e, u) := by
    unfold queryOf at hquery
    split at hquery
    · exact absurd rfl hspec
    · obtain ⟨e, v, hrun, hend⟩ := execute_bind_ok hquery
      cases hend
      exact ⟨e, rfl, hrun⟩
  obtain ⟨e, rfl, hcompile⟩ := hcompiled
  have hlater := hholds.extends h.stays
  have hanswers : ∀ t, u.ChangesAt ∅ t → ∀ i (hi : i < xs.length),
      ∃ w, (e.test caller xs[i] i).execute t = (.ok (keep i), w) ∧ u.ChangesAt ∅ w := by
    intro t ht i hi
    obtain ⟨w, hrun, hw⟩ := h.answers i _ ∅ t (List.getElem?_eq_getElem hi)
      (s.avoids_empty _) (s.avoids_empty _) ht
    exact ⟨w, hrun, ht.trans hw⟩
  obtain ⟨t, hmatching, ht⟩ :=
    matching_invariant (fun t ht => hlater.extends ht.grows.extends) (.refl u) hanswers
  refine (gives_derived (hlater.extends ht.grows.extends).cell _).of_extends
    (h.stays.trans ht.grows.extends) ?_
  unfold filter
  rw [execute_bind_of_ok hcompile, execute_bind_of_ok hmatching]

/-- An update has put something in the place of the selected items, and has changed nothing else. -/
structure Updated (caller : Caller) (a : Address) (c : Collection) (xs : List Value) (p : Value)
    (fields : Option (List (String × Value))) (keep : Nat → Bool) (s u t : State) : Prop where
  items : ∃ ys, t.store.Holds a c ys ∧ ys.length = xs.length ∧
    (∀ i, keep i = false → ys[i]? = xs[i]?) ∧
    ∀ i x, xs[i]? = some x → keep i = true →
      ∃ y, ys[i]? = some y ∧ Replaced caller p c.list u t i x fields y
  /-- only the list and, by a patch, selected items have been changed -/
  rest : u.ChangesAt (touched c.list keep (written fields xs)) t
  /-- collections over other lists hold the items that they held -/
  elsewhere : ∀ b d zs, s.store.Holds b d zs → d.list ≠ c.list → t.store.Holds b d zs

/-- An update of records, none of which is reached from another one, from the query or from the
patch, comes to its end.  The items that the query keeps beforehand have then been given the fields
of the patch, or have been replaced by what the callback gives, and nothing else has been
changed. -/
theorem update_separate (hholds : s.store.Holds a c xs) (hrecords : ∀ x ∈ xs, s.store.IsRecord x)
    {args : List Value} (hasks : AsksUpdate args spec p) (hseparate : Separate s xs spec p)
    (hquery : (queryOf caller a spec).execute s = (.ok test, u))
    (hdecided : Decided caller spec xs keep test s u) (hp : Provides caller p xs s u fields) :
    (spec ≠ .null → Gives (filter caller a spec) (pick keep xs) s) ∧
      ∃ t, (update caller a args).execute s = (.ok (.ref a), t) ∧
        Updated caller a c xs p fields keep s u t := by
  refine ⟨hdecided.gives_filter hholds hquery, ?_⟩
  have hu := hdecided.stays
  have htest : ∀ i x t, xs[i]? = some x →
      u.ChangesAt (front c.list keep (written fields xs) i) t →
        ∃ w, (concerns caller test x i).execute t = (.ok (keep i), w) ∧ t.ChangesAt ∅ w := by
    intro i x t hx ht
    refine hdecided.answers i x _ t hx ?_ ?_ ht
    · exact hseparate.item_avoids hrecords hholds hx
    · exact avoids_front_of_not_reaches hrecords hholds hx hseparate.query
  have hput : ∀ i x t, xs[i]? = some x →
      u.ChangesAt (front c.list keep (written fields xs) i) t →
        ∃ y w, (updated caller p x i).execute t = (.ok y, w) ∧
          t.ChangesAt (written fields xs i) w := by
    intro i x t hx ht
    obtain ⟨y, w, hrun, hmakes⟩ := updated_ok hholds hrecords hseparate hu hp hx ht
    refine ⟨y, w, hrun, ?_⟩
    cases hmakes with
    | merged _ hw =>
      refine hw.mono ?_
      rintro b rfl
      exact ⟨rfl, hx⟩
    | called _ hw => exact hw.mono (Set.empty_subset _)
  have hfixed : ∀ i, a ∉ written fields xs i ∧ c.list ∉ written fields xs i := fun i =>
    ⟨not_mem_written hrecords hholds.not_isRecord.1 i,
      not_mem_written hrecords hholds.not_isRecord.2 i⟩
  obtain ⟨t, hfold, hend⟩ := fold_update htest hput hfixed (hholds.extends hu)
  have hrest : u.ChangesAt (touched c.list keep (written fields xs)) t :=
    hend.changes.mono (front_subset_touched _ _ _ _)
  refine ⟨t, ?_, ?_, hrest, fun b d zs hb hother => ?_⟩
  · rw [execute_update hasks hp.isPatch, execute_bind_of_ok hquery, execute_bind_of_ok hfold]
    rfl
  · obtain ⟨ys, hthere, hlength, hkept, hobtained⟩ := hend.holds
    refine ⟨ys, hthere, hlength, fun i hi => hkept i (.inr hi), fun i x hx hkeep => ?_⟩
    obtain ⟨y, hy, hfound⟩ := hobtained i x hx (List.getElem?_eq_some_iff.mp hx).1 hkeep
    exact ⟨y, hy, hfound.replaced hholds hrecords hseparate hu hp hx⟩
  · have hlater := hb.extends hu
    have hstays : ∀ {e f}, u.store.cell? e = some f → e ≠ c.list → ¬ s.store.IsRecord (.ref e) →
        t.store.cell? e = some f := by
      refine fun he hne hother => hrest.cells _ _ he ?_
      rintro (hlist | ⟨i, -, hi⟩)
      · exact hne hlist
      · exact not_mem_written hrecords hother i hi
    exact ⟨hstays hlater.cell (hb.ne_list hholds) hb.not_isRecord.1,
      hstays hlater.list hother hb.not_isRecord.2⟩

/-- A collection over a list in the fourth cell. -/
def overFour : Collection where
  list := ⟨4⟩
  validators := ⟨3⟩
  policy := ⟨0⟩
  registry := ⟨1⟩
  generator := ⟨2⟩

/-- A mapping, a mapping that nobody can change and an object in a collection, with a query for the
first two of them, a patch, and a callback that gives the index. -/
def threeRecords : State where
  store := { cells := #[
    .policy {},
    .registry {},
    .generator ⟨0⟩,
    .dict [],
    .list [.ref ⟨6⟩, .ref ⟨7⟩, .ref ⟨8⟩],
    .collection overFour,
    .dict [(.str "k", .int 1)],
    .frozen [(.str "k", .int 1)],
    .object [("k", .int 2)],
    .dict [(.str "k", .int 1)],
    .dict [(.str "n", .int 5)],
    .function (.closure ⟨2, 0, false⟩ (.arg 1) none)] }

/-- The records, the query and the patches reach no other value that is shared. -/
theorem reaches_threeRecords {a b : Address} (ha : a.index ∈ [6, 7, 8, 9, 10, 11])
    (h : threeRecords.Reaches (.ref a) (.ref b)) : b = a := by
  have hcell : ∃ c, threeRecords.store.cell? a = some c ∧
      ∀ x ∈ c.holds [], x.isSimple = true := by
    obtain ⟨n⟩ := a
    simp only [List.mem_cons, List.not_mem_nil, or_false] at ha
    rcases ha with rfl | rfl | rfl | rfl | rfl | rfl <;> exact ⟨_, rfl, by decide⟩
  obtain ⟨c, hc, hsimple⟩ := hcell
  rcases h.of_simple hc hsimple rfl with hsame | hother
  · exact Value.ref.inj hsame
  · cases hother

theorem separate_threeRecords {spec p : Value} (hspec : spec = .null ∨ spec = .ref ⟨9⟩)
    (hp : p = .ref ⟨10⟩ ∨ p = .ref ⟨11⟩) :
    Separate threeRecords [.ref ⟨6⟩, .ref ⟨7⟩, .ref ⟨8⟩] spec p := by
  have hitem : ∀ {i : Nat} {x : Value},
      [Value.ref ⟨6⟩, .ref ⟨7⟩, .ref ⟨8⟩][i]? = some x → i < 3 ∧ x = .ref ⟨i + 6⟩ := by
    intro i x hx
    have hi : i < 3 := (List.getElem?_eq_some_iff.mp hx).1
    obtain rfl | rfl | rfl : i = 0 ∨ i = 1 ∨ i = 2 := by omega
    all_goals
      cases hx
      exact ⟨hi, rfl⟩
  have hother : ∀ {a : Address}, a.index ∈ [9, 10, 11] →
      ∀ x ∈ [Value.ref ⟨6⟩, .ref ⟨7⟩, .ref ⟨8⟩], ¬ threeRecords.Reaches (.ref a) x := by
    intro a ha x hx hreach
    obtain ⟨i, hi⟩ := List.mem_iff_getElem?.mp hx
    obtain ⟨hlt, rfl⟩ := hitem hi
    obtain rfl := reaches_threeRecords (List.mem_append_right [6, 7, 8] ha) hreach
    simp only [List.mem_cons, List.not_mem_nil, or_false] at ha
    omega
  refine ⟨fun i j x y hx hy hreach => ?_, ?_, ?_⟩
  · obtain ⟨hi, rfl⟩ := hitem hx
    obtain ⟨hj, rfl⟩ := hitem hy
    have hsame := reaches_threeRecords (by simp; omega) hreach
    simpa using hsame
  · rcases hspec with rfl | rfl
    · intro x hx hreach
      obtain ⟨i, hi⟩ := List.mem_iff_getElem?.mp hx
      obtain ⟨-, rfl⟩ := hitem hi
      cases hreach.eq_of_simple rfl rfl
    · exact hother (by decide)
  · rcases hp with rfl | rfl
    · exact hother (by decide)
    · exact hother (by decide)

/-- The query selects the first two records. -/
theorem decided_threeRecords :
    Decided apply (.ref ⟨9⟩) [.ref ⟨6⟩, .ref ⟨7⟩, .ref ⟨8⟩] (· != 2)
      (some (.term (.str "k") .equal (.int 1))) threeRecords threeRecords := by
  refine decided_of_terms (.refl _) nofun ?_ (.term rfl (.inr ⟨.simple rfl, ?_⟩)) ?_
  · simp only [List.mem_cons, List.not_mem_nil, or_false]
    rintro x (rfl | rfl | rfl)
    all_goals exact .cell rfl rfl rfl fun v hv => .simple (by revert v; decide)
  · intro b hreach
    cases hreach.eq_of_simple rfl rfl
  · intro i x hx
    have hi : i < 3 := (List.getElem?_eq_some_iff.mp hx).1
    obtain rfl | rfl | rfl : i = 0 ∨ i = 1 ∨ i = 2 := by omega
    all_goals
      cases hx
      exact ⟨_, rfl⟩

/-- The callback gives the index. -/
theorem provides_threeRecords :
    Provides apply (.ref ⟨11⟩) [.ref ⟨6⟩, .ref ⟨7⟩, .ref ⟨8⟩] threeRecords threeRecords none := by
  refine .callback rfl fun i x D t _ _ hD ht => ⟨.int i, t, ?_, .refl t⟩
  have hcell : t.store.cell? ⟨11⟩ = some (.function (.closure ⟨2, 0, false⟩ (.arg 1) none)) :=
    ht.cells _ _ rfl (hD.not_mem _ rfl)
  have hwide : Callback.isNarrow t.store (.ref ⟨11⟩) 2 = false := by
    simp [Callback.isNarrow, Callback.arity, Callback.positional?, Store.view, hcell,
      Callback.functionPositional, Shape.arity]
  unfold Callback.call
  rw [execute_get_bind]
  dsimp only
  rw [hwide, if_neg Bool.false_ne_true]
  unfold apply callDepth applyAt
  dsimp only
  rw [execute_bind_of_ok (execute_cell hcell)]
  rfl

/-- The first two records are given a field, one of them in place and the other in a copy; the
callback puts the index in the place of all three. -/
theorem update_threeRecords :
    Gives (filter apply ⟨5⟩ (.ref ⟨9⟩)) [.ref ⟨6⟩, .ref ⟨7⟩] threeRecords ∧
      (∃ t, (update apply ⟨5⟩ [.ref ⟨9⟩, .ref ⟨10⟩]).execute threeRecords = (.ok (.ref ⟨5⟩), t) ∧
        Updated apply ⟨5⟩ overFour [.ref ⟨6⟩, .ref ⟨7⟩, .ref ⟨8⟩] (.ref ⟨10⟩)
          (some [("n", .int 5)]) (· != 2) threeRecords threeRecords t) ∧
      ∃ t, (update apply ⟨5⟩ [.ref ⟨11⟩]).execute threeRecords = (.ok (.ref ⟨5⟩), t) ∧
        Updated apply ⟨5⟩ overFour [.ref ⟨6⟩, .ref ⟨7⟩, .ref ⟨8⟩] (.ref ⟨11⟩) none
          (fun _ => true) threeRecords threeRecords t := by
  have hholds : threeRecords.store.Holds ⟨5⟩ overFour [.ref ⟨6⟩, .ref ⟨7⟩, .ref ⟨8⟩] := ⟨rfl, rfl⟩
  have hrecords : ∀ x ∈ [Value.ref ⟨6⟩, .ref ⟨7⟩, .ref ⟨8⟩], threeRecords.store.IsRecord x := by
    simp only [List.mem_cons, List.not_mem_nil, or_false]
    rintro x (rfl | rfl | rfl)
    · exact .dict rfl
    · exact .frozen rfl
    · exact .object rfl
  have hpatch : Provides apply (.ref ⟨10⟩) [.ref ⟨6⟩, .ref ⟨7⟩, .ref ⟨8⟩] threeRecords threeRecords
      (some [("n", .int 5)]) := .fields rfl (by decide)
  obtain ⟨hfilter, hpatched⟩ := update_separate hholds hrecords (.matching _ _)
    (separate_threeRecords (.inr rfl) (.inl rfl)) rfl decided_threeRecords hpatch
  have hreplaced := (update_separate hholds hrecords (.all _)
    (separate_threeRecords (.inl rfl) (.inr rfl)) rfl (decided_all apply _ threeRecords)
    provides_threeRecords).2
  exact ⟨hfilter nofun, hpatched, hreplaced⟩

/-- Two collections that share the list of their items, and a patch. -/
def sharedList : State where
  store := { cells := #[
    .policy {},
    .registry {},
    .generator ⟨0⟩,
    .dict [],
    .list [.ref ⟨6⟩],
    .collection overFour,
    .frozen [(.str "k", .int 1)],
    .dict [(.str "k", .int 2)],
    .collection overFour] }

/-- The record is separate from the patch, and is replaced in both collections. -/
theorem update_sharedList :
    Separate sharedList [.ref ⟨6⟩] .null (.ref ⟨7⟩) ∧ sharedList.store.IsRecord (.ref ⟨6⟩) ∧
      sharedList.store.Holds ⟨8⟩ overFour [.ref ⟨6⟩] ∧
      ∃ t, (update apply ⟨5⟩ [.ref ⟨7⟩]).execute sharedList = (.ok (.ref ⟨5⟩), t) ∧
        t.store.Holds ⟨8⟩ overFour [.ref ⟨9⟩] ∧
        t.store.cell? ⟨9⟩ = some (.dict [(.str "k", .int 2)]) := by
  refine ⟨⟨fun i j x y hx hy _ => ?_, fun x hx hreach => ?_, fun x hx hreach => ?_⟩, .frozen rfl,
    ⟨rfl, rfl⟩, _, rfl, ⟨rfl, rfl⟩, rfl⟩
  · have hi := (List.getElem?_eq_some_iff.mp hx).1
    have hj := (List.getElem?_eq_some_iff.mp hy).1
    simp only [List.length_singleton] at hi hj
    omega
  · rw [List.mem_singleton.mp hx] at hreach
    cases hreach.eq_of_simple rfl rfl
  · rw [List.mem_singleton.mp hx] at hreach
    have hsimple : ∀ x ∈ (Cell.dict [(.str "k", .int 2)]).holds [], x.isSimple = true := by decide
    rcases hreach.of_simple rfl hsimple rfl with hsame | hother
    · cases hsame
    · cases hother

end Collection

end Recordset
