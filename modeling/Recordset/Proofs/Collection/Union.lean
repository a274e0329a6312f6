import Recordset.Collection.Transform
import Recordset.Proofs.Collection.Distinct
import Recordset.Proofs.Collection.Visit
import Recordset.Proofs.Equality
set_option autoImplicit false

/-!
# Adding the items that are missing

`union` walks what another value offers, and adds each item that equals nothing that is there yet,
those included that it has just added.  Equality is no equivalence here: a collection equals a list
and a tuple that differ.  Nothing more is needed than that an item which is there is found there
(`Store.anyEqual_append_cons`), and that what is found is found among more items as well
(`Store.anyEqual_append_of_true`).

A comparison that fails for the bound on the nesting would be one that fails; `Store.Settles` says
of two values that this does not happen, now or in a later state, as it does not where the nesting
of one of them ends (`Store.settles_of_ends`).

`Collection.union_addsMissing` is the main statement.
-/

namespace Recordset

open Recordset.Action

/-! ## What a value offers -/

namespace Store

/-- The items that a value stands for: those of a container that is no mapping and no text, none for
null, and of any other value the value itself. -/
def given (s : Store) (v : Value) : Except Error (List Value) :=
  match v with
  | .null => .ok []
  | .str _ => .ok [v]
  | .bytes _ => .ok [v]
  | _ => if s.isMapping v || !s.isIterable v then .ok [v] else s.elements v

/-- A value that is an iterator, which gives its items only once. -/
def IsIterator (s : Store) (v : Value) : Prop := ∃ ys, s.view v = some (.iterator ys)

end Store

namespace State

variable {s t : State} {v : Value} {ys : List Value}

theorem Later.elements (h : s.Later t) (hwhole : s.Whole) {a : Address} (ha : s.Made (.ref a)) :
    t.store.elements (.ref a) = s.store.elements (.ref a) := by
  unfold Store.elements
  dsimp only
  rw [h.view ha]
  split
  case h_7 d hd => rw [h.items hwhole hd]
  all_goals rfl

/-- What a value offers is the same later. -/
theorem Later.given (h : s.Later t) (hwhole : s.Whole) (hv : s.Made v) :
    t.store.given v = s.store.given v := by
  cases v with
  | ref a =>
    have hmapping : t.store.isMapping (.ref a) = s.store.isMapping (.ref a) := by
      unfold Store.isMapping Store.entries?
      rw [h.view hv]
    have hiterable : t.store.isIterable (.ref a) = s.store.isIterable (.ref a) := by
      unfold Store.isIterable
      dsimp only
      rw [h.view hv]
    unfold Store.given
    dsimp only
    rw [hmapping, hiterable, h.elements hwhole hv]
  | _ => rfl

theorem Whole.made_of_elements (h : s.Whole) {a : Address}
    (hys : s.store.elements (.ref a) = .ok ys) : ∀ y ∈ ys, s.Made y := by
  unfold Store.elements at hys
  dsimp only at hys
  split at hys
  case h_5 es hes | h_6 es hes =>
    cases hys
    intro y hy
    obtain ⟨e, he, rfl⟩ := List.mem_map.mp hy
    have hentries : s.store.entries? (.ref a) = some es := by
      unfold Store.entries?
      rw [hes]
    exact (h.made_of_entry hentries he).1
  case h_7 d hd =>
    cases hys
    exact fun y hy => h.made_of_items hy
  case h_8 | h_9 => cases hys
  all_goals
    rename_i hview
    cases hys
    exact fun y hy => h.made_of_view hview hy

/-- What a value offers has been made. -/
theorem Whole.made_of_given (h : s.Whole) (hv : s.Made v) (hys : s.store.given v = .ok ys) :
    ∀ y ∈ ys, s.Made y := by
  have hitself (hys : Except.ok (ε := Error) [v] = .ok ys) : ∀ y ∈ ys, s.Made y := by
    cases hys
    intro y hy
    rwa [List.mem_singleton.mp hy]
  cases v with
  | null =>
    cases hys
    exact fun y hy => nomatch hy
  | ref a =>
    unfold Store.given at hys
    dsimp only at hys
    split at hys
    · exact hitself hys
    · exact h.made_of_elements hys
  | _ => exact hitself hys

end State

namespace Collection

variable {s t : State} {v : Value} {ys : List Value}

/-- A value that is no iterator offers its items without being changed. -/
theorem execute_initialItems_of_not_iterator (hv : ¬ s.store.IsIterator v) :
    (initialItems v).execute s = (s.store.given v, s) := by
  cases v with
  | ref a =>
    unfold initialItems Store.given
    dsimp only
    rw [execute_get_bind]
    split
    · rfl
    · unfold iterate
      rw [execute_bind, execute_look]
      cases helements : s.store.elements (.ref a) with
      | error e => rfl
      | ok ys =>
        cases hc : s.store.cell? a with
        | none => simp [Store.elements, Store.view, hc] at helements
        | some c =>
          dsimp only
          rw [execute_bind_of_ok (execute_cell hc)]
          cases c with
          | iterator zs => exact absurd ⟨zs, hc⟩ hv
          | _ => rfl
  | _ => rfl

/-- An iterator offers what it has left, and has none of it left afterwards. -/
theorem execute_initialItems_of_iterator {i : Address}
    (hi : s.store.cell? i = some (.iterator ys)) :
    (initialItems (.ref i)).execute s =
      (.ok ys, { s with store := s.store.write i (.iterator []) }) := by
  have hview : s.store.view (.ref i) = some (.iterator ys) := hi
  have hiterable : (s.store.isMapping (.ref i) || !s.store.isIterable (.ref i)) = false := by
    simp [Store.isMapping, Store.entries?, Store.isIterable, hview]
  have helements : (look (Store.elements · (.ref i))).execute s = (.ok ys, s) := by
    simp [Store.elements, hview]
  unfold initialItems
  dsimp only
  rw [execute_get_bind, hiterable, if_neg Bool.false_ne_true]
  unfold iterate
  rw [execute_bind_of_ok helements]
  dsimp only
  rw [execute_bind_of_ok (execute_cell hi)]
  rfl

end Collection

/-! ## Comparisons that end -/

namespace Store

variable {s : Store} {v w : Value}

/-- The comparison of two values as elements ends with the same answer, however much more deeply
than the store's depth they may nest. -/
def Settles (s : Store) (v w : Value) : Prop :=
  ∃ b, ∀ fuel, s.depth ≤ fuel → sameOr (s.equalAt fuel) v w = .ok b

/-- A comparison settles when it does not fail and the nesting of one of the two values ends. -/
theorem settles_of_ends {b : Bool} (hb : s.matchesElement v w = .ok b) (h : s.Ends v ∨ s.Ends w) :
    s.Settles v w := by
  refine ⟨b, fun fuel hfuel => ?_⟩
  rw [sameOr_congr (equalAt_eq (h.imp Ends.nestsWithin Ends.nestsWithin) hfuel)]
  exact hb

/-- A value is found in a list that has more than one in which it is found. -/
theorem anyEqual_append_of_true {xs : List Value} (h : s.anyEqual v xs = .ok true)
    (ys : List Value) : s.anyEqual v (xs ++ ys) = .ok true := by
  induction xs with
  | nil => cases h
  | cons x xs ih =>
    rw [List.cons_append, anyEqual]
    rw [anyEqual] at h
    cases hx : s.matchesElement x v with
    | error e =>
      rw [hx] at h
      cases h
    | ok b =>
      rw [hx] at h
      cases b with
      | true => rfl
      | false => exact ih h

/-- A value that is in a list is found there when it is compared with all that is before it. -/
theorem anyEqual_append_cons {xs : List Value} (h : s.anyEqual v xs = .ok false)
    (ys : List Value) : s.anyEqual v (xs ++ v :: ys) = .ok true := by
  induction xs with
  | nil =>
    rw [List.nil_append, anyEqual, matchesElement, sameOr_of_same (Value.same_refl v)]
    rfl
  | cons x xs ih =>
    rw [List.cons_append, anyEqual]
    rw [anyEqual] at h
    cases hx : s.matchesElement x v with
    | error e =>
      rw [hx] at h
      cases h
    | ok b =>
      rw [hx] at h
      cases b with
      | true => cases h
      | false => exact ih h

/-- What is not found in a list equals none of its elements. -/
theorem matchesElement_of_anyEqual_false {xs : List Value} (h : s.anyEqual v xs = .ok false) :
    ∀ x ∈ xs, s.matchesElement x v = .ok false := by
  induction xs with
  | nil => exact fun _ hx => nomatch hx
  | cons x xs ih =>
    rw [anyEqual] at h
    cases hx : s.matchesElement x v with
    | error e =>
      rw [hx] at h
      cases h
    | ok b =>
      rw [hx] at h
      cases b with
      | true => cases h
      | false =>
        intro y hy
        rcases List.mem_cons.mp hy with rfl | hy
        · exact hx
        · exact ih h y hy

theorem anyEqual_congr {r : Store} {xs : List Value}
    (h : ∀ x ∈ xs, r.matchesElement x v = s.matchesElement x v) :
    r.anyEqual v xs = s.anyEqual v xs := by
  induction xs with
  | nil => rfl
  | cons x xs ih =>
    rw [anyEqual, anyEqual, h x List.mem_cons_self,
      ih fun y hy => h y (List.mem_cons_of_mem x hy)]

/-- Lists of the same elements are equal. -/
theorem itemsEqual_self (eq : Value → Value → Except Error Bool) (xs : List Value) :
    itemsEqual eq xs xs = .ok true := by
  unfold itemsEqual
  rw [if_pos rfl]
  induction xs with
  | nil => rfl
  | cons x xs ih =>
    rw [allEqual, sameOr_of_same (Value.same_refl x)]
    exact ih

/-- Collections of the same items are equal. -/
theorem Holds.equal {a b : Address} {c d : Collection} {xs : List Value} (ha : s.Holds a c xs)
    (hb : s.Holds b d xs) : s.equal (.ref a) (.ref b) = .ok true := by
  unfold Store.equal depth
  rw [equalAt_of_view (show s.view (.ref a) = _ from ha.cell)
    (show s.view (.ref b) = _ from hb.cell)]
  show itemsEqual _ (s.items c) (s.items d) = .ok true
  rw [ha.items, hb.items]
  exact itemsEqual_self _ xs

end Store

/-- A comparison that settles comes out in the same way later. -/
theorem State.Later.matchesElement {s t : State} {v w : Value} (h : s.Later t) (hwhole : s.Whole)
    (hv : s.Made v) (hw : s.Made w) (hsettles : s.store.Settles v w) :
    t.store.matchesElement v w = s.store.matchesElement v w := by
  obtain ⟨b, hb⟩ := hsettles
  have hdepth : s.store.depth ≤ t.store.depth := Nat.add_le_add_right h.size_le 2
  calc t.store.matchesElement v w
      = Store.sameOr (s.store.equalAt t.store.depth) v w :=
        Store.sameOr_congr (h.equalAt hwhole _ hv hw)
    _ = .ok b := hb _ hdepth
    _ = s.store.matchesElement v w := (hb _ (Nat.le_refl _)).symm

namespace Collection

variable {s t : State} {r : Store} {a : Address} {xs ys zs : List Value} {other : Value}

/-! ## Adding what is missing -/

/-- What is added to some items of others is what is missing: some of these, in their order, none of
them equal to one of the items or to one that has been added before, and all of the others are then
found. -/
structure AddsMissing (s : Store) (xs ys zs : List Value) : Prop where
  sublist : zs.Sublist ys
  new : ∀ x ∈ xs, ∀ z ∈ zs, s.matchesElement x z = .ok false
  distinct : zs.Pairwise fun v w => s.matchesElement v w = .ok false
  found : ∀ y ∈ ys, s.anyEqual y (xs ++ zs) = .ok true

/-- The comparisons of some items with others that come after them, and of these among themselves,
are of a kind. -/
def Compared (p : Value → Value → Prop) (xs ys : List Value) : Prop :=
  (∀ x ∈ xs, ∀ y ∈ ys, p x y) ∧ ys.Pairwise p

theorem Compared.tail {p : Value → Value → Prop} {y : Value} (h : Compared p xs (y :: ys)) :
    Compared p xs ys :=
  ⟨fun x hx z hz => h.1 x hx z (List.mem_cons_of_mem y hz), h.2.tail⟩

theorem Compared.append {p : Value → Value → Prop} {y : Value} (h : Compared p xs (y :: ys)) :
    Compared p (xs ++ [y]) ys := by
  refine ⟨fun x hx z hz => ?_, h.2.tail⟩
  rcases List.mem_append.mp hx with hx | hx
  · exact h.1 x hx z (List.mem_cons_of_mem y hz)
  · rw [List.mem_singleton.mp hx]
    exact List.rel_of_pairwise_cons h.2 hz

/-- Where no comparison fails, what is missing is added behind the items. -/
theorem addMissing_adds
    (h : Compared (fun v w => ∃ b, r.matchesElement v w = .ok b) xs ys) :
    ∃ zs, addMissing r xs ys = .ok (xs ++ zs) ∧ AddsMissing r xs ys zs := by
  induction ys generalizing xs with
  | nil =>
    refine ⟨[], ?_, .refl [], fun _ _ _ hz => (nomatch hz), .nil, fun _ hy => nomatch hy⟩
    rw [List.append_nil]
    rfl
  | cons y ys ih =>
    have hscan : ∃ b, r.anyEqual y xs = .ok b :=
      ⟨_, Store.anyEqual_ok fun x hx => h.1 x hx y List.mem_cons_self⟩
    obtain ⟨b, hb⟩ := hscan
    rw [addMissing, hb]
    cases b with
    | true =>
      obtain ⟨zs, hrun, hadds⟩ := ih h.tail
      refine ⟨zs, hrun, hadds.sublist.cons y, hadds.new, hadds.distinct, fun z hz => ?_⟩
      rcases List.mem_cons.mp hz with rfl | hz
      · exact Store.anyEqual_append_of_true hb zs
      · exact hadds.found z hz
    | false =>
      obtain ⟨zs, hrun, hadds⟩ := ih h.append
      have hsplit : xs ++ [y] ++ zs = xs ++ y :: zs := List.append_cons xs y zs ▸ rfl
      rw [hsplit] at hrun
      refine ⟨y :: zs, hrun, hadds.sublist.cons_cons y, fun x hx z hz => ?_, ?_, fun z hz => ?_⟩
      · rcases List.mem_cons.mp hz with rfl | hz
        · exact Store.matchesElement_of_anyEqual_false hb x hx
        · exact hadds.new x (List.mem_append_left [y] hx) z hz
      · exact .cons (fun z hz => hadds.new y (by simp) z hz) hadds.distinct
      · rcases List.mem_cons.mp hz with rfl | hz
        · exact Store.anyEqual_append_cons hb zs
        · rw [← hsplit]
          exact hadds.found z hz

/-- Nothing is added where everything is found. -/
theorem addMissing_of_found (h : ∀ y ∈ ys, r.anyEqual y xs = .ok true) :
    addMissing r xs ys = .ok xs := by
  induction ys with
  | nil => rfl
  | cons y ys ih =>
    rw [addMissing, h y List.mem_cons_self]
    exact ih fun z hz => h z (List.mem_cons_of_mem y hz)

/-- Adding goes in the same way in stores in which the comparisons come out in the same way. -/
theorem addMissing_congr {q : Store}
    (h : Compared (fun v w => q.matchesElement v w = r.matchesElement v w) xs ys) :
    addMissing q xs ys = addMissing r xs ys := by
  induction ys generalizing xs with
  | nil => rfl
  | cons y ys ih =>
    rw [addMissing, addMissing, Store.anyEqual_congr fun x hx => h.1 x hx y List.mem_cons_self]
    refine bind_congr fun b => ?_
    cases b with
    | true => exact ih h.tail
    | false => exact ih h.append

end Collection

/-! ## What a value that has offered items offers again -/

namespace State

variable {s t : State} {v : Value}

/-- What has been made stays so as long as no cell and no serial number is taken back. -/
theorem Made.of_le (hsize : s.store.size ≤ t.store.size) (hserial : s.serial ≤ t.serial) :
    ∀ {v : Value}, s.Made v → t.Made v := by
  intro v
  induction v with
  | ref a => exact fun hv => Nat.lt_of_lt_of_le hv hsize
  | method serial a name => exact fun hv => Nat.lt_of_lt_of_le hv hserial
  | extension serial f receiver ihf ihreceiver =>
    exact fun hv => ⟨Nat.lt_of_lt_of_le hv.1 hserial, ihf hv.2.1, ihreceiver hv.2.2⟩
  | _ => exact fun _ => trivial

/-- The state after an iterator has given what it had left. -/
def drain (s : State) (i : Address) : State :=
  { s with store := s.store.write i (.iterator []) }

theorem drain_size (s : State) (i : Address) : (s.drain i).store.size = s.store.size :=
  Array.size_setIfInBounds

theorem Made.drain (hv : s.Made v) (i : Address) : (s.drain i).Made v :=
  hv.of_le (Nat.le_of_eq (s.drain_size i).symm) (Nat.le_refl _)

theorem Whole.drain (h : s.Whole) (i : Address) : (s.drain i).Whole where
  cells c hc v hv := by
    have hcells :
        (s.drain i).store.cells.toList = s.store.cells.toList.set i.index (.iterator []) :=
      Array.toList_setIfInBounds ..
    rw [hcells] at hc
    rcases List.mem_or_eq_of_mem_set hc with hc | rfl
    · exact (h.cells c hc v hv).drain i
    · cases hv
  marks m hm := ⟨(h.marks m hm).1.drain i, (h.marks m hm).2.drain i⟩
  shared := Nat.lt_of_lt_of_eq h.shared (s.drain_size i).symm

/-- A collection holds its items whatever is taken from an iterator. -/
theorem holds_drain {i a : Address} {ys xs : List Value} {c : Collection}
    (hi : s.store.cell? i = some (.iterator ys)) (h : s.store.Holds a c xs) :
    (s.drain i).store.Holds a c xs := by
  have ha : a ≠ i := by
    rintro rfl
    cases hi.symm.trans h.cell
  have hlist : c.list ≠ i := by
    rintro rfl
    cases hi.symm.trans h.list
  exact ⟨(Store.cell?_write_of_ne _ ha).trans h.cell,
    (Store.cell?_write_of_ne _ hlist).trans h.list⟩

end State

namespace Collection

variable {s t : State} {a : Address} {xs ys : List Value} {other : Value}

/-- A value has offered items: they have been made, no collection has changed, and later the value
offers the same items again or, as an iterator, none. -/
structure Offered (other : Value) (ys : List Value) (s t : State) : Prop where
  whole : t.Whole
  items : ∀ y ∈ ys, t.Made y
  holds : ∀ a c xs, s.store.Holds a c xs → t.store.Holds a c xs
  again : ∀ u, t.Later u → ∃ zs w, (initialItems other).execute u = (.ok zs, w) ∧
    (∀ a c xs, u.store.Holds a c xs → w.store.Holds a c xs) ∧ (zs = ys ∧ w = u ∨ zs = [])

theorem offered_of_initialItems (hwhole : s.Whole) (hother : s.Made other)
    (hmore : (initialItems other).execute s = (.ok ys, t)) : Offered other ys s t := by
  by_cases hiterator : s.store.IsIterator other
  · obtain ⟨zs, hzs⟩ := hiterator
    cases other with
    | ref i =>
      have hi : s.store.cell? i = some (.iterator zs) := hzs
      cases (execute_initialItems_of_iterator hi).symm.trans hmore
      refine ⟨hwhole.drain i, fun y hy => (hwhole.made_of_cell? hi hy).drain i,
        fun a c xs => State.holds_drain hi, fun u hu => ?_⟩
      have hdrained : u.store.cell? i = some (.iterator []) :=
        hu.grows.cells _ _ (Store.cell?_write_of_lt _ (Array.getElem?_eq_some_iff.mp hi).1)
      exact ⟨[], _, execute_initialItems_of_iterator hdrained,
        fun a c xs => State.holds_drain hdrained, .inr rfl⟩
    | _ => cases hzs
  · rw [execute_initialItems_of_not_iterator hiterator] at hmore
    obtain ⟨hgiven, rfl⟩ := Prod.mk.inj hmore
    refine ⟨hwhole, hwhole.made_of_given hother hgiven, fun _ _ _ h => h, fun u hu => ?_⟩
    have hlater : ¬ u.store.IsIterator other := by
      rintro ⟨zs, hzs⟩
      exact hiterator ⟨zs, (hu.view hother).symm.trans hzs⟩
    refine ⟨ys, u, ?_, fun _ _ _ h => h, .inl ⟨rfl, rfl⟩⟩
    rw [execute_initialItems_of_not_iterator hlater, hu.given hwhole hother, hgiven]

/-! ## Main statement -/

theorem execute_union {c : Collection} {zs : List Value} (hholds : s.store.Holds a c xs)
    (hmore : (initialItems other).execute s = (.ok ys, t)) (hthere : t.store.Holds a c xs)
    (hadd : addMissing t.store xs ys = .ok zs) :
    ∃ b d u, (union a other).execute s = (.ok (.ref b), u) ∧ t.Later u ∧ u.store.Holds b d zs := by
  obtain ⟨b, d, u, hrun, hu, hb, -⟩ := derived_ok hthere.cell zs
  refine ⟨b, d, u, ?_, hu, hb⟩
  unfold union
  rw [execute_bind_of_ok (execute_itemsOf hholds), execute_bind_of_ok hmore, execute_bind,
    execute_look, hadd]
  exact hrun

/-- Adding to a collection what is missing of another value, where no comparison of the items
fails, gives a new collection of the items and, behind them, of those that were missing, and
changes nothing but an iterator; adding it once more gives an equal collection. -/
theorem union_addsMissing (hlists : s.store.Lists a xs) (hwhole : s.Whole) (hother : s.Made other)
    (hmore : (initialItems other).execute s = (.ok ys, t))
    (hsettles : Compared t.store.Settles xs ys) :
    ∃ zs b u, (union a other).execute s = (.ok (.ref b), u) ∧ t.Later u ∧
      u.store.Lists a xs ∧ u.store.Lists b (xs ++ zs) ∧ AddsMissing u.store xs ys zs ∧
      ∃ e w, (union b other).execute u = (.ok (.ref e), w) ∧ w.store.Lists e (xs ++ zs) ∧
        w.store.equal (.ref e) (.ref b) = .ok true := by
  obtain ⟨c, hholds⟩ := hlists
  have hoffered := offered_of_initialItems hwhole hother hmore
  have hthere := hoffered.holds a c xs hholds
  have hxs : ∀ x ∈ xs, t.Made x := fun x hx =>
    hoffered.whole.made_of_items (hthere.items.symm ▸ hx)
  -- In every later state the comparisons come out as they do where the items are added.
  have hlater {u : State} (hu : t.Later u) :
      Compared (fun v w => u.store.matchesElement v w = t.store.matchesElement v w) xs ys := by
    refine ⟨fun x hx y hy => ?_, ?_⟩
    · exact hu.matchesElement hoffered.whole (hxs x hx) (hoffered.items y hy)
        (hsettles.1 x hx y hy)
    · refine hsettles.2.imp_of_mem fun {v w} hv hw hvw => ?_
      exact hu.matchesElement hoffered.whole (hoffered.items v hv) (hoffered.items w hw) hvw
  have hends {u : State} (hu : t.Later u) :
      Compared (fun v w => ∃ b, u.store.matchesElement v w = .ok b) xs ys := by
    have hsucceeds {v w : Value} (hvw : t.store.Settles v w)
        (heq : u.store.matchesElement v w = t.store.matchesElement v w) :
        ∃ b, u.store.matchesElement v w = .ok b := by
      obtain ⟨b, hb⟩ := hvw
      exact ⟨b, heq.trans (hb _ (Nat.le_refl _))⟩
    exact ⟨fun x hx y hy => hsucceeds (hsettles.1 x hx y hy) ((hlater hu).1 x hx y hy),
      (hsettles.2.and (hlater hu).2).imp fun h => hsucceeds h.1 h.2⟩
  obtain ⟨zs, hadd, -⟩ := addMissing_adds (hends (.refl t))
  obtain ⟨b, d, u, hrun, hu, hb⟩ := execute_union hholds hmore hthere hadd
  obtain ⟨zs', hadd', hadds⟩ := addMissing_adds (hends hu)
  obtain rfl : zs' = zs := by
    rw [addMissing_congr (hlater hu), hadd] at hadd'
    exact (List.append_cancel_left (Except.ok.inj hadd')).symm
  obtain ⟨more, v, hagain, hkept, hmore'⟩ := hoffered.again u hu
  have hnone : addMissing v.store (xs ++ zs') more = .ok (xs ++ zs') := by
    obtain ⟨rfl, rfl⟩ | rfl := hmore'
    · exact addMissing_of_found hadds.found
    · rfl
  have hbv := hkept b d _ hb
  obtain ⟨e, f, w, hrun', hw, he⟩ := execute_union hb hagain hbv hnone
  exact ⟨zs', b, u, hrun, hu, ⟨c, hthere.extends hu.extends⟩, ⟨d, hb⟩, hadds, e, w, hrun', ⟨f, he⟩,
    he.equal (hbv.extends hw.extends)⟩

/-- A collection of a tuple, and a list of a collection and a list, all of the same numbers.  The
tuple and the list both equal the collection, but not each other. -/
def alikes : State where
  store := { cells := #[
    .policy {},
    .registry {},
    .generator ⟨0⟩,
    .dict [],
    .list [.ref ⟨6⟩],
    .collection
      { list := ⟨4⟩, validators := ⟨3⟩, policy := ⟨0⟩, registry := ⟨1⟩, generator := ⟨2⟩ },
    .tuple [.int 1, .int 2],
    .list [.int 1, .int 2],
    .collection
      { list := ⟨7⟩, validators := ⟨3⟩, policy := ⟨0⟩, registry := ⟨1⟩, generator := ⟨2⟩ },
    .list [.ref ⟨8⟩, .ref ⟨10⟩],
    .list [.int 1, .int 2]] }

/-- Of a collection and a list that it equals only the list is added to a tuple that the collection
equals too. -/
theorem union_alikes :
    alikes.store.Lists ⟨5⟩ [.ref ⟨6⟩] ∧ alikes.Whole ∧ alikes.Made (.ref ⟨9⟩) ∧
    (initialItems (.ref ⟨9⟩)).execute alikes = (.ok [.ref ⟨8⟩, .ref ⟨10⟩], alikes) ∧
    Compared alikes.store.Settles [.ref ⟨6⟩] [.ref ⟨8⟩, .ref ⟨10⟩] ∧
    ∃ b u, (union ⟨5⟩ (.ref ⟨9⟩)).execute alikes = (.ok (.ref b), u) ∧
      u.store.Lists b [.ref ⟨6⟩, .ref ⟨10⟩] ∧
      AddsMissing u.store [.ref ⟨6⟩] [.ref ⟨8⟩, .ref ⟨10⟩] [.ref ⟨10⟩] := by
  have hlists : alikes.store.Lists ⟨5⟩ [.ref ⟨6⟩] := ⟨_, rfl, rfl⟩
  have hwhole : alikes.Whole := ⟨by decide, by decide, by decide⟩
  have hother : alikes.Made (.ref ⟨9⟩) := by decide
  have hmore : (initialItems (.ref ⟨9⟩)).execute alikes = (.ok [.ref ⟨8⟩, .ref ⟨10⟩], alikes) := rfl
  have hsettles (v w : Address) (b : Bool)
      (h : ∀ more, Store.sameOr (alikes.store.equalAt (more + 13)) (.ref v) (.ref w) = .ok b) :
      alikes.store.Settles (.ref v) (.ref w) := by
    refine ⟨b, fun fuel hfuel => ?_⟩
    obtain ⟨more, rfl⟩ := Nat.exists_eq_add_of_le' hfuel
    exact h more
  have hcompared : Compared alikes.store.Settles [.ref ⟨6⟩] [.ref ⟨8⟩, .ref ⟨10⟩] := by
    have hone := hsettles ⟨6⟩ ⟨8⟩ true fun _ => rfl
    have htwo := hsettles ⟨6⟩ ⟨10⟩ false fun _ => rfl
    have hthree := hsettles ⟨8⟩ ⟨10⟩ true fun _ => rfl
    simp [Compared, hone, htwo, hthree]
  obtain ⟨zs, b, u, hrun, -, -, hb, hadds, -⟩ :=
    union_addsMissing hlists hwhole hother hmore hcompared
  obtain ⟨c, d, v, hagain, hd⟩ : ∃ c d v,
      (union ⟨5⟩ (.ref ⟨9⟩)).execute alikes = (.ok (.ref c), v) ∧
      v.store.Holds c d [.ref ⟨6⟩, .ref ⟨10⟩] := ⟨_, _, _, rfl, rfl, rfl⟩
  cases hrun.symm.trans hagain
  obtain ⟨e, he⟩ := hb
  obtain rfl : zs = [.ref ⟨10⟩] := by
    obtain rfl : e = d := Cell.collection.inj (Option.some.inj (he.cell.symm.trans hd.cell))
    exact (List.cons.inj (he.items.symm.trans hd.items)).2
  exact ⟨hlists, hwhole, hother, hmore, hcompared, b, u, hrun, ⟨e, he⟩, hadds⟩

end Collection

end Recordset
