import Recordset.Proofs.Scope.Reading
set_option autoImplicit false

/-!
# Comparing the values of a scope

Equality, order and hashes walk into what values hold, which stays in the scope.  So they come to
the same in stores that are the same on it, and so do the operations on mappings and sets, which
keep to what they are given.
-/

namespace Recordset

namespace Scope

/-! ## What is gone through -/

section

variable {α β : Type} {xs : List α}

/-- What follows on a result sees that result only. -/
theorem except_bind_congr {r : Except Error α} {f g : α → Except Error β}
    (h : ∀ a, r = .ok a → f a = g a) : r >>= f = r >>= g := by
  cases r with
  | error e => rfl
  | ok a => exact h a rfl

theorem all_congr {p q : α → Bool} (h : ∀ x ∈ xs, p x = q x) : xs.all p = xs.all q := by
  rw [Bool.eq_iff_iff, List.all_eq_true, List.all_eq_true]
  exact forall₂_congr fun x hx => by rw [h x hx]

theorem any_congr {p q : α → Bool} (h : ∀ x ∈ xs, p x = q x) : xs.any p = xs.any q := by
  rw [Bool.eq_iff_iff, List.any_eq_true, List.any_eq_true]
  exact exists_congr fun x => and_congr_right fun hx => by rw [h x hx]

theorem mapM_congr {m : Type → Type} [Monad m] [LawfulMonad m] {f g : α → m β}
    (h : ∀ x ∈ xs, f x = g x) : xs.mapM f = xs.mapM g := by
  induction xs with
  | nil => rfl
  | cons x xs ih =>
    rw [List.mapM_cons, List.mapM_cons, h x List.mem_cons_self,
      ih fun y hy => h y (List.mem_cons_of_mem x hy)]

end

variable {sc : Scope} {s t : Store} {v w : Value} {xs ys : List Value} {es : Entries}

/-! ## Equality -/

/-- What a comparison walks into is in the scope. -/
theorem Closed.inner (h : sc.Closed s) (hv : sc.Has v) {c : Cell} (hc : s.view v = some c) :
    sc.Has (c.inner s.items) := by
  have hhas := h.has_of_view hv hc
  cases c with
  | list | tuple | set | dict | frozen => exact hhas
  | collection d => exact h.items (has_cell_collection.mp hhas)
  | policy p =>
    obtain ⟨hperPage, hseparator, hseed⟩ := has_cell_policy.mp hhas
    simp [Cell.inner, hperPage, hseparator, hseed]
  | _ => exact has_nil sc

theorem SameStore.equalAt (h : sc.SameStore s t) : ∀ (fuel : Nat) {v w : Value},
    sc.Has v → sc.Has w → s.equalAt fuel v w = t.equalAt fuel v w := by
  intro fuel
  induction fuel with
  | zero => exact fun _ _ => rfl
  | succ fuel ih =>
    intro v w hv hw
    cases hc : t.view v with
    | none => exact Store.equalAt_of_no_view (h.view hv) (h.view hw) (.inl hc) fuel fuel
    | some c =>
      cases hd : t.view w with
      | none => exact Store.equalAt_of_no_view (h.view hv) (h.view hw) (.inr hd) fuel fuel
      | some d =>
        rw [Store.equalAt_of_view ((h.view hv).trans hc) ((h.view hw).trans hd),
          Store.equalAt_of_view hc hd]
        refine (Store.cellsEqual_items ?_ ?_).trans (Store.cellsEqual_congr fun x hx y hy => ?_)
        · rintro e rfl
          exact h.items_of_view hv hc
        · rintro e rfl
          exact h.items_of_view hw hd
        · have hx := (h.closed.inner hv hc).mem hx
          have hy := (h.closed.inner hw hd).mem hy
          exact ⟨ih hx hy, ih hy hx⟩

section

variable (h : sc.SameStore s t) (hv : sc.Has v) (hw : sc.Has w) (hxs : sc.Has xs)
  (hys : sc.Has ys) (hes : sc.Has es)
include h

section

include hv hw

theorem SameStore.equal : s.equal v w = t.equal v w := by
  unfold Store.equal
  rw [h.depth]
  exact h.equalAt _ hv hw

theorem SameStore.matchesElement : s.matchesElement v w = t.matchesElement v w :=
  Store.sameOr_congr (h.equal hv hw)

theorem SameStore.sameKey : s.sameKey v w = t.sameKey v w := by
  unfold Store.sameKey
  rw [h.matchesElement hv hw]

end

include hv hxs in
theorem SameStore.anyEqual : s.anyEqual v xs = t.anyEqual v xs := by
  induction xs with
  | nil => rfl
  | cons x xs ih =>
    obtain ⟨hx, hxs⟩ := has_cons.mp hxs
    rw [Store.anyEqual, Store.anyEqual, h.matchesElement hx hv, ih hxs]

/-! ## Mappings -/

include hv hes

theorem SameStore.find? : Entries.find? s es v = Entries.find? t es v :=
  Store.findBy_congr fun _ he => h.equal (has_fst (hes.mem he)) hv

theorem SameStore.contains : Entries.contains s es v = Entries.contains t es v :=
  any_congr fun _ he => h.sameKey (has_fst (hes.mem he)) hv

theorem SameStore.erase : Entries.erase s es v = Entries.erase t es v :=
  List.filter_congr fun e he => by rw [h.sameKey (has_fst (hes.mem he)) hv]

theorem SameStore.insert (w : Value) : Entries.insert s es v w = Entries.insert t es v w := by
  unfold Entries.insert
  rw [h.contains hv hes]
  split
  · exact List.map_congr_left fun e he => by rw [h.sameKey (has_fst (hes.mem he)) hv]
  · rfl

end

theorem has_find? (hes : sc.Has es) (v : Value) : sc.Has (Entries.find? s es v) := by
  intro w hw
  obtain ⟨e, he, rfl⟩ := Store.mem_of_findBy hw
  exact has_snd (hes.mem he)

theorem has_erase (hes : sc.Has es) (v : Value) : sc.Has (Entries.erase s es v) := hes.filter _

theorem has_insert (hes : sc.Has es) (hv : sc.Has v) (hw : sc.Has w) :
    sc.Has (Entries.insert s es v w) := by
  unfold Entries.insert
  split
  · refine has_map fun e he => ?_
    have he : sc.Has e := hes.mem he
    grind
  · exact has_append.mpr ⟨hes, has_cons.mpr ⟨⟨hv, hw⟩, has_nil sc⟩⟩

theorem has_insertAll {more : Entries} (hmore : sc.Has more) :
    ∀ {es : Entries}, sc.Has es → sc.Has (Entries.insertAll s es more) := by
  unfold Entries.insertAll
  induction more with
  | nil => exact fun hes => hes
  | cons e more ih =>
    intro es hes
    obtain ⟨he, hmore⟩ := has_cons.mp hmore
    exact ih hmore (has_insert hes he.1 he.2)

theorem has_ofList (hes : sc.Has es) : sc.Has (Entries.ofList s es) :=
  has_insertAll hes (has_nil sc)

theorem SameStore.insertAll (h : sc.SameStore s t) {more : Entries} (hmore : sc.Has more) :
    ∀ {es : Entries}, sc.Has es → Entries.insertAll s es more = Entries.insertAll t es more := by
  unfold Entries.insertAll
  induction more with
  | nil => simp only [List.foldl_nil, implies_true]
  | cons e more ih =>
    intro es hes
    obtain ⟨he, hmore⟩ := has_cons.mp hmore
    rw [List.foldl_cons, List.foldl_cons, h.insert he.1 hes]
    exact ih hmore (has_insert hes he.1 he.2)

theorem SameStore.ofList (h : sc.SameStore s t) (hes : sc.Has es) :
    Entries.ofList s es = Entries.ofList t es := h.insertAll hes (has_nil sc)

/-! ## Keys -/

theorem SameStore.isKeyAt (h : sc.SameStore s t) : ∀ (fuel : Nat) {v : Value}, sc.Has v →
    s.isKeyAt fuel v = t.isKeyAt fuel v := by
  intro fuel
  induction fuel with
  | zero => exact fun _ => rfl
  | succ fuel ih =>
    intro v hv
    cases hc : t.view v with
    | none =>
      rw [Store.isKeyAt_of_no_view hc, Store.isKeyAt_of_no_view ((h.view hv).trans hc)]
    | some c =>
      rw [Store.isKeyAt_of_view hc, Store.isKeyAt_of_view ((h.view hv).trans hc)]
      have hparts : sc.Has c.keyParts := by
        have hhas := h.closed.has_of_view hv hc
        cases c with
        | tuple | record => exact hhas
        | policy p => exact hhas
        | _ => exact has_nil sc
      rw [all_congr fun x hx => ih (hparts.mem hx)]

theorem SameStore.isKey (h : sc.SameStore s t) (hv : sc.Has v) : s.isKey v = t.isKey v := by
  unfold Store.isKey
  rw [h.depth]
  exact h.isKeyAt _ hv

theorem SameStore.all_isKey (h : sc.SameStore s t) (hxs : sc.Has xs) :
    xs.all s.isKey = xs.all t.isKey := all_congr fun _ hx => h.isKey (hxs.mem hx)

/-! ## Order -/

theorem SameStore.within (h : sc.SameStore s t) (hxs : sc.Has xs) (hys : sc.Has ys) :
    s.within xs ys = t.within xs ys :=
  all_congr fun _ hx => any_congr fun _ hy => h.sameKey (hxs.mem hx) (hys.mem hy)

theorem SameStore.compareSets (h : sc.SameStore s t) (hxs : sc.Has xs) (hys : sc.Has ys)
    (op : Comparison) : s.compareSets op xs ys = t.compareSets op xs ys := by
  unfold Store.compareSets
  rw [h.within hxs hys, h.within hys hxs]

theorem SameStore.compareAt (h : sc.SameStore s t) (op : Comparison) : ∀ (fuel : Nat) {v w : Value},
    sc.Has v → sc.Has w → s.compareAt fuel op v w = t.compareAt fuel op v w := by
  intro fuel
  induction fuel with
  | zero => exact fun _ _ => rfl
  | succ fuel ih =>
    intro v w hv hw
    have hlists : ∀ {xs ys : List Value}, sc.Has xs → sc.Has ys →
        Store.compareLists (s.equalAt fuel) (s.compareAt fuel op) op xs ys =
          Store.compareLists (t.equalAt fuel) (t.compareAt fuel op) op xs ys :=
      fun hxs hys => Store.compareLists_congr
        (fun x hx y hy => h.equalAt fuel (hxs.mem hx) (hys.mem hy))
        fun x hx y hy => ih (hxs.mem hx) (hys.mem hy)
    unfold Store.compareAt
    rw [h.view hv, h.view hw, h.comparedKind hv, h.comparedKind hw]
    split
    · rfl
    · split
      · rfl
      · rfl
      · split
        case h_3 hc hd =>
          exact hlists (h.closed.has_of_view hv hc) (h.closed.has_of_view hw hd)
        case h_4 hc hd =>
          exact hlists (h.closed.has_of_view hv hc) (h.closed.has_of_view hw hd)
        case h_5 xs ys hc hd =>
          have hxs : sc.Has xs := h.closed.has_of_view hv hc
          have hys : sc.Has ys := h.closed.has_of_view hw hd
          rw [h.compareSets hxs hys]
        all_goals rfl

theorem SameStore.compare (h : sc.SameStore s t) (op : Comparison) (hv : sc.Has v)
    (hw : sc.Has w) : s.compare op v w = t.compare op v w := by
  unfold Store.compare
  rw [h.depth]
  exact h.compareAt op _ hv hw

theorem SameStore.less (h : sc.SameStore s t) (hv : sc.Has v) (hw : sc.Has w) :
    s.less v w = t.less v w := h.compare .less hv hw

/-! ## Hashes and sets -/

theorem SameStore.hashAt (h : sc.SameStore s t) : ∀ (fuel : Nat) {v : Value}, sc.Has v →
    s.hashAt fuel v = t.hashAt fuel v := by
  intro fuel
  induction fuel with
  | zero => exact fun _ => rfl
  | succ fuel ih =>
    intro v hv
    unfold Store.hashAt
    rw [h.view hv]
    split
    · rfl
    · rfl
    · split
      · rename_i xs hc
        have hxs : sc.Has xs := h.closed.has_of_view hv hc
        rw [mapM_congr fun x hx => ih (hxs.mem hx)]
      · rfl

theorem SameStore.hash? (h : sc.SameStore s t) (hv : sc.Has v) : s.hash? v = t.hash? v := by
  unfold Store.hash?
  rw [h.depth]
  exact h.hashAt _ hv

theorem SameStore.hashes (h : sc.SameStore s t) (hxs : sc.Has xs) :
    (xs.mapM fun v => (s.hash? v).map fun n => (hashWord n, v)) =
      xs.mapM fun v => (t.hash? v).map fun n => (hashWord n, v) :=
  mapM_congr fun _ hx => by rw [h.hash? (hxs.mem hx)]

theorem SameStore.order (h : sc.SameStore s t) (hxs : sc.Has xs) :
    SetTable.order s xs = SetTable.order t xs := by
  unfold SetTable.order
  rw [h.hashes hxs]

theorem SameStore.copyOrder (h : sc.SameStore s t) (hxs : sc.Has xs) :
    SetTable.copyOrder s xs = SetTable.copyOrder t xs := by
  unfold SetTable.copyOrder
  rw [h.hashes hxs]

/-! ### Tables -/

theorem has_put {table : SetTable} (htable : sc.Has table.entries) (hv : sc.Has v) (hash : UInt64) :
    sc.Has (table.put hash v).entries := by
  intro e he
  obtain ⟨slot, hslot, hsome⟩ := List.mem_filterMap.mp he
  unfold SetTable.put at hslot
  rw [Array.toList_setIfInBounds] at hslot
  rcases List.mem_or_eq_of_mem_set hslot with hold | rfl
  · exact htable.mem (List.mem_filterMap.mpr ⟨slot, hold, hsome⟩)
  · cases hsome
    exact ⟨trivial, hv⟩

theorem has_empty (sc : Scope) (size : Nat) : sc.Has (SetTable.empty size).entries := by
  intro e he
  obtain ⟨slot, hslot, hsome⟩ := List.mem_filterMap.mp he
  simp only [SetTable.empty, Array.toList_replicate] at hslot
  cases (List.eq_of_mem_replicate hslot).symm.trans hsome

/-- Elements that are put into a table one after another. -/
theorem has_foldl (add : SetTable → UInt64 → Value → SetTable)
    (hadd : ∀ {table hash v}, sc.Has table.entries → sc.Has v → sc.Has (add table hash v).entries)
    {es : List (UInt64 × Value)} (hes : sc.Has es) :
    ∀ {table : SetTable}, sc.Has table.entries →
      sc.Has (es.foldl (fun table (hash, v) => add table hash v) table).entries := by
  induction es with
  | nil => exact fun htable => htable
  | cons e es ih =>
    intro table htable
    obtain ⟨he, hes⟩ := has_cons.mp hes
    exact ih hes (hadd htable (has_snd he))

theorem has_add {table : SetTable} {hash : UInt64} (htable : sc.Has table.entries) (hv : sc.Has v) :
    sc.Has (table.add hash v).entries := by
  have hput := has_put htable hv hash
  unfold SetTable.add
  dsimp only
  split
  · exact hput
  · exact has_foldl SetTable.put (fun htable hv => has_put htable hv _) hput (has_empty sc _)

theorem has_hashes (hxs : sc.Has xs) {es : List (UInt64 × Value)}
    (hes : (xs.mapM fun v => (s.hash? v).map fun n => (hashWord n, v)) = some es) : sc.Has es := by
  induction xs generalizing es with
  | nil =>
    cases hes
    exact has_nil sc
  | cons x xs ih =>
    obtain ⟨hx, hxs⟩ := has_cons.mp hxs
    rw [List.mapM_cons] at hes
    obtain ⟨e, he, hrest⟩ := Option.bind_eq_some_iff.mp hes
    obtain ⟨more, hmore, heq⟩ := Option.bind_eq_some_iff.mp hrest
    obtain ⟨n, -, rfl⟩ := Option.map_eq_some_iff.mp he
    cases heq
    exact has_cons.mpr ⟨⟨trivial, hx⟩, ih hxs hmore⟩

theorem has_order (hxs : sc.Has xs) : sc.Has (SetTable.order s xs) := by
  unfold SetTable.order
  split
  · exact hxs
  · rename_i es hes
    exact (has_foldl SetTable.add has_add (has_hashes hxs hes) (has_empty sc _)).map_snd

theorem has_copyOrder (hxs : sc.Has xs) : sc.Has (SetTable.copyOrder s xs) := by
  unfold SetTable.copyOrder
  split
  · exact hxs
  · rename_i es hes
    dsimp only
    split
    · exact hxs
    · exact (has_foldl SetTable.put (fun htable hv => has_put htable hv _)
        (has_hashes hxs hes) (has_empty sc _)).map_snd

/-! ### Sets -/

theorem has_distinctKeys (hxs : sc.Has xs) : sc.Has (s.distinctKeys xs) := by
  unfold Store.distinctKeys
  suffices h : ∀ {ys : List Value}, sc.Has ys →
      sc.Has (xs.foldl (fun ys v => if ys.any (s.sameKey v) then ys else ys ++ [v]) ys) from
    h (has_nil sc)
  induction xs with
  | nil => exact fun hys => hys
  | cons x xs ih =>
    intro ys hys
    obtain ⟨hx, hxs⟩ := has_cons.mp hxs
    refine ih hxs ?_
    grind

theorem SameStore.distinctKeys (h : sc.SameStore s t) (hxs : sc.Has xs) :
    s.distinctKeys xs = t.distinctKeys xs := by
  unfold Store.distinctKeys
  suffices hfold : ∀ {ys : List Value}, sc.Has ys →
      xs.foldl (fun ys v => if ys.any (s.sameKey v) then ys else ys ++ [v]) ys =
        xs.foldl (fun ys v => if ys.any (t.sameKey v) then ys else ys ++ [v]) ys from
    hfold (has_nil sc)
  induction xs with
  | nil => simp only [List.foldl_nil, implies_true]
  | cons x xs ih =>
    intro ys hys
    obtain ⟨hx, hxs⟩ := has_cons.mp hxs
    rw [List.foldl_cons, List.foldl_cons, any_congr fun y hy => h.sameKey hx (hys.mem hy)]
    refine ih hxs ?_
    grind

theorem has_setOf (hxs : sc.Has xs) : sc.Has (s.setOf xs) := has_order (has_distinctKeys hxs)

theorem SameStore.setOf (h : sc.SameStore s t) (hxs : sc.Has xs) : s.setOf xs = t.setOf xs := by
  unfold Store.setOf
  rw [h.distinctKeys hxs]
  exact h.order (has_distinctKeys hxs)

theorem has_setDifference (hxs : sc.Has xs) : sc.Has (s.setDifference xs ys) := by
  unfold Store.setDifference
  dsimp only
  split
  · exact (has_copyOrder hxs).filter _
  · exact has_order (hxs.filter _)

theorem SameStore.setDifference (h : sc.SameStore s t) (hxs : sc.Has xs) (hys : sc.Has ys) :
    s.setDifference xs ys = t.setDifference xs ys := by
  have hrest : ∀ {zs : List Value}, sc.Has zs →
      (zs.filter fun z => !ys.any fun y => s.sameKey z y) =
        zs.filter fun z => !ys.any fun y => t.sameKey z y := fun hzs =>
    List.filter_congr fun z hz => by
      rw [any_congr fun y hy => h.sameKey (hzs.mem hz) (hys.mem hy)]
  unfold Store.setDifference
  dsimp only
  rw [h.copyOrder hxs, hrest (has_copyOrder hxs), hrest hxs]
  split
  · rfl
  · exact h.order (hxs.filter _)

/-! ## Elements -/

theorem has_itemAt (hxs : sc.Has xs) (key : Value) : sc.Has (itemAt xs key) := by
  unfold itemAt
  split
  · exact has_error sc _
  · split
    · rename_i i _ v hv
      obtain ⟨n, -, hn⟩ := Option.bind_eq_some_iff.mp hv
      exact has_ok.mpr (hxs.mem (List.mem_of_getElem? hn))
    · exact has_error sc _

theorem has_characters (sc : Scope) (text : String) : sc.Has (characters text) :=
  has_map fun _ _ => has_str sc _

theorem has_byteValues (sc : Scope) (bs : List UInt8) : sc.Has (byteValues bs) :=
  has_map fun _ _ => has_int sc _

theorem has_entry (hes : sc.Has es) (v : Value) : sc.Has (s.entry es v) := by
  unfold Store.entry
  have hfound := has_find? (s := s) hes v
  grind

theorem Closed.item (h : sc.Closed s) (hv : sc.Has v) (w : Value) : sc.Has (s.item v w) := by
  unfold Store.item
  split
  · exact has_itemAt (has_characters sc _) w
  · exact has_itemAt (has_byteValues sc _) w
  · split
    case h_1 xs hc => exact has_itemAt (h.has_of_view hv hc) w
    case h_2 xs hc => exact has_itemAt (h.has_of_view hv hc) w
    case h_3 c hc => exact has_itemAt (h.items (has_cell_collection.mp (h.has_of_view hv hc))) w
    case h_4 es hc => exact has_entry (has_cell_dict.mp (h.has_of_view hv hc)) w
    case h_5 es hc => exact has_entry (has_cell_frozen.mp (h.has_of_view hv hc)) w
    case h_6 | h_7 => exact has_error sc _

theorem Closed.elements (h : sc.Closed s) (hv : sc.Has v) : sc.Has (s.elements v) := by
  unfold Store.elements
  split
  · exact has_ok.mpr (has_characters sc _)
  · exact has_ok.mpr (has_byteValues sc _)
  · split
    case h_5 es hc =>
      exact has_ok.mpr (has_cell_dict.mp (h.has_of_view hv hc)).map_fst
    case h_6 es hc =>
      exact has_ok.mpr (has_cell_frozen.mp (h.has_of_view hv hc)).map_fst
    case h_7 c hc => exact has_ok.mpr (h.items (has_cell_collection.mp (h.has_of_view hv hc)))
    case h_8 | h_9 => exact has_error sc _
    case h_1 xs hc | h_2 xs hc | h_3 xs hc | h_4 xs hc => exact has_ok.mpr (h.has_of_view hv hc)

theorem SameStore.holds (h : sc.SameStore s t) (hv : sc.Has v) (hw : sc.Has w) :
    s.holds v w = t.holds v w := by
  unfold Store.holds
  rw [h.view hv, h.isKey hw, h.view hw, h.elements hv]
  split
  · rfl
  · rfl
  · split
    case h_1 es hc => rw [h.contains hw (has_cell_dict.mp (h.closed.has_of_view hv hc))]
    case h_2 es hc => rw [h.contains hw (has_cell_frozen.mp (h.closed.has_of_view hv hc))]
    case h_3 xs hc =>
      have hxs : sc.Has xs := h.closed.has_of_view hv hc
      rw [any_congr fun x hx => h.sameKey (hxs.mem hx) hw]
    case h_4 => rfl
    case h_5 =>
      exact except_bind_congr fun xs hxs => h.anyEqual hw (h.closed.elements hv xs hxs)

end Scope

end Recordset
