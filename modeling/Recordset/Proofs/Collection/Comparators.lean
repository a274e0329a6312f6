import Recordset.Proofs.Collection.KeyOrder
set_option autoImplicit false

/-!
# Sorting a collection by a comparator

A comparator tells by a number below zero that the first of two items has to come before the
second.  It is asked while the collection shows no items, and may do anything else as long as it
goes by one order throughout (`Collection.Judges`).  The items then end up in that order, and where
it leaves two of them equal, as they stood before (`Collection.Stands`).

A comparator that goes by the keys of the items therefore sorts them as the keys do.

`Collection.sort_comparator` is the main statement.
-/

namespace Recordset.Collection

open Sorting

variable {caller : Caller} {a b : Address} {c : Collection} {s : State} {d : Direction}
  {I : State → Prop} {ι : Type} {item : ι → Value} {le : ι → ι → Prop} {cmp direction : Value}

/-! ## Comparators -/

/-- The state in which a sort by a comparator asks for the first time: the collection shows no
items. -/
def emptied (s : State) (a : Address) (c : Collection) : State :=
  { s with store :=
      (s.store.write c.list (.list [])).write a (.collection { c with grown := false }) }

/-- A comparator goes by one order of the positions of the items, in which equal items may stand
side by side: whenever it is asked, it gives a number, which is below zero just when the first item
has to come before the second.  An invariant that its calls keep says when it is asked; the
collection shows no items then. -/
structure Judges (caller : Caller) (cmp : Value) (a : Address) (c : Collection) (item : ι → Value)
    (le : ι → ι → Prop) (I : State → Prop) : Prop where
  answers : ∀ s, I s → ∀ i j, ∃ v m t, (caller cmp [item i, item j]).execute s = (.ok v, t) ∧ I t ∧
    v.measure? = some (.inl m) ∧ (m < 0 ↔ ¬ le j i)
  empty : ∀ s, I s → s.store.Holds a { c with grown := false } []

/-- A call of a comparator is answered by the order of its items. -/
theorem Judges.before_ok (h : Judges caller cmp a c item le I) (hs : I s) (i j : ι) :
    ∃ b t, Action.execute (before caller cmp (item i) (item j)) s = (.ok b, t) ∧ I t ∧
      (b = true ↔ ¬ le j i) := by
  obtain ⟨v, m, t, hcall, ht, hmeasure, hm⟩ := h.answers s hs i j
  have hzero : (Value.int 0).measure? = some (.inl 0) := rfl
  obtain ⟨b, hrun, hb⟩ := t.store.compare_of_ordered .less hmeasure hzero
    ((le_total m 0).imp Sum.inl_le_inl_iff.mpr Sum.inl_le_inl_iff.mpr)
  refine ⟨b, t, ?_, ht, ?_⟩
  · unfold before
    rw [Action.execute_bind_of_ok hcall, Action.execute_look, hrun]
  · rw [hb, Comparison.orders_inl, ← hm]
    rfl

/-- Equal items stand alike in the order of a comparator. -/
theorem Judges.le_congr (h : Judges caller cmp a c item le I) (hs : I s) {i i' j j' : ι}
    (hi : item i = item i') (hj : item j = item j') : le i j ↔ le i' j' := by
  obtain ⟨b, t, hrun, -, hb⟩ := h.before_ok hs j i
  obtain ⟨b', t', hrun', -, hb'⟩ := h.before_ok hs j' i'
  rw [hi, hj] at hrun
  cases hrun.symm.trans hrun'
  exact not_iff_not.mp (hb.symm.trans hb')

variable [Std.Total le] [IsTrans ι le]

/-- The order of items by a comparator. -/
def Judges.ranking (h : Judges caller cmp a c item le I) (hs : I s) : Ranking Value where
  before x y := ∃ i j, item i = x ∧ item j = y ∧ ¬ le j i
  fits x y := ∃ i j, item i = x ∧ item j = y ∧ le i j
  fits_of_before := fun ⟨i, j, hx, hy, hlt⟩ => ⟨i, j, hx, hy, (total_of le i j).resolve_right hlt⟩
  fits_trans := by
    rintro x y z ⟨i, j, hx, hy, hij⟩ ⟨j', k, hy', hz, hjk⟩
    exact ⟨i, k, hx, hz, trans_of le hij ((h.le_congr hs (hy'.trans hy.symm) rfl).mp hjk)⟩
  before_of_before_of_fits := by
    rintro x y z ⟨i, j, hx, hy, hji⟩ ⟨j', k, hy', hz, hjk⟩
    have hjk := (h.le_congr hs (hy'.trans hy.symm) rfl).mp hjk
    exact ⟨i, k, hx, hz, fun hki => hji (trans_of le hjk hki)⟩
  before_of_fits_of_before := by
    rintro x y z ⟨i, j, hx, hy, hij⟩ ⟨j', k, hy', hz, hkj⟩
    have hkj := (not_congr (h.le_congr hs rfl (hy'.trans hy.symm))).mp hkj
    exact ⟨i, k, hx, hz, fun hki => hkj (trans_of le hki hij)⟩

theorem Judges.compares (h : Judges caller cmp a c item le I) (hs : I s) :
    Compares (.keeping I) (fun _ : Error => False) (h.ranking hs) (fun v => ∃ i, item i = v)
      (before caller cmp) := by
  rintro _ _ ⟨i, rfl⟩ ⟨j, rfl⟩ t ht
  obtain ⟨b, u, hrun, hu, hb⟩ := h.before_ok ht i j
  have hrun' : StateT.run (before caller cmp (item i) (item j)).run t = (.ok b, u) := hrun
  rw [hrun']
  refine And.intro
    ⟨fun htrue => ⟨i, j, rfl, rfl, hb.mp htrue⟩, fun hfalse => ⟨j, i, rfl, rfl, ?_⟩⟩ hu
  by_contra hnot
  cases hfalse.symm.trans (hb.mpr hnot)

/-! ## The order of positions -/

/-- An order in one of the two directions. -/
def Towards (d : Direction) (le : ι → ι → Prop) (i j : ι) : Prop :=
  match d with
  | .asc => le i j
  | .desc => le j i

/-- What puts one position in front of another: nothing has it the other way round, and where the
two are equal the first of them stood there before. -/
def Stands [LT ι] (d : Direction) (le : ι → ι → Prop) (i j : ι) : Prop :=
  Towards d le i j ∧ (Towards d le j i → i < j)

/-- Of two positions at most one stands in front of the other. -/
theorem Stands.asymm {ι : Type} [Preorder ι] {le : ι → ι → Prop} {i j : ι} (hij : Stands d le i j)
    (hji : Stands d le j i) : False :=
  lt_asymm (hij.2 hji.1) (hji.2 hij.1)

variable {n : ℕ} {item : Fin n → Value} {le : Fin n → Fin n → Prop} [Std.Total le]
  [IsTrans (Fin n) le]

/-- The positions from which the items come that a sort by a comparator puts in order. -/
theorem Judges.exists_order (h : Judges caller cmp a c item le I) (hs : I s) {ys : List Value}
    (hstable : Stable ((h.ranking hs).towards (d == .desc)) ((List.finRange n).map item) ys)
    (hsorted : ((h.ranking hs).towards (d == .desc)).Sorted ys) :
    ∃ order : List (Fin n), order.Perm (List.finRange n) ∧ order.Pairwise (Stands d le) ∧
      ys = order.map item := by
  obtain ⟨order, horder, rfl⟩ := hstable.exists_map
  have hpairs : order.Pairwise fun i j =>
      ((h.ranking hs).towards (d == .desc)).fits (item i) (item j) :=
    List.pairwise_map.mp hsorted
  refine ⟨order, horder.perm.symm, ?_, rfl⟩
  refine (hpairs.and (horder.pairwise (List.pairwise_lt_finRange n))).imp ?_
  rintro i j ⟨hfits, hmoved⟩
  cases d with
  | asc =>
    obtain ⟨i', j', hi, hj, hle⟩ := hfits
    refine ⟨(h.le_congr hs hi hj).mp hle, fun hji => hmoved.resolve_right ?_⟩
    rintro ⟨i', j', hi, hj, hlt⟩
    exact hlt ((h.le_congr hs hj hi).mpr hji)
  | desc =>
    obtain ⟨j', i', hj, hi, hle⟩ := hfits
    refine ⟨(h.le_congr hs hj hi).mp hle, fun hij => hmoved.resolve_right ?_⟩
    rintro ⟨j', i', hj, hi, hlt⟩
    exact hlt ((h.le_congr hs hi hj).mpr hij)

/-! ## Sorting by a comparator -/

/-- A computation that can not fail leaves its result to what comes next. -/
theorem execute_lift_run {α : Type} (x : StateM State α) (s : State) :
    Action.execute (ExceptT.lift x) s = (.ok (x.run s).1, (x.run s).2) := rfl

theorem fillList_ok {xs : List Value} (h : s.store.cell? b = some (.list xs))
    (ys : List Value) :
    (Action.fillList b ys).execute s =
      (.ok ⟨⟩, { s with store := s.store.write b (.list ys) }) := by
  unfold Action.fillList
  rw [Action.execute_bind_of_ok (Action.execute_cell h)]
  rfl

theorem sortComparing_ok (hholds : s.store.Holds a c ((List.finRange n).map item))
    (h : Judges caller cmp a c item le I) (hstart : I (emptied s a c)) :
    ∃ (order : List (Fin n)) (u : State),
      (sortComparing caller a cmp d).execute s = (.ok ⟨⟩, u) ∧
      order.Perm (List.finRange n) ∧ order.Pairwise (Stands d le) ∧
      u.store.Lists a (order.map item) := by
  have hsort := ensures_sortTowards (h.compares hstart) (d == .desc)
    (fun v (hv : v ∈ (List.finRange n).map item) => by
      obtain ⟨i, -, hi⟩ := List.mem_map.mp hv
      exact ⟨i, hi⟩) _ hstart
  cases hrun : (sortTowards (before caller cmp) (d == .desc) ((List.finRange n).map item)).run
    (emptied s a c) with
  | mk result t =>
    obtain ⟨ys, failure⟩ := result
    rw [hrun] at hsort
    obtain ⟨hsettles, ht⟩ := hsort
    obtain rfl : failure = none := Option.eq_none_iff_forall_ne_some.mpr hsettles.failure
    obtain ⟨order, hperm, hpairs, rfl⟩ :=
      h.exists_order hstart hsettles.stable (hsettles.sorted rfl)
    have hempty := h.empty t ht
    have hfilled := hempty.write (order.map item)
    refine ⟨order, { t with
      store := (t.store.write c.list (.list (order.map item))).write a (.collection c) },
      ?_, hperm, hpairs, c, ?_, ?_⟩
    · have hsorting : Action.execute (ExceptT.lift (sortTowards (before caller cmp) (d == .desc)
          ((List.finRange n).map item))) (emptied s a c) = (.ok (order.map item, none), t) := by
        rw [execute_lift_run, hrun]
      have hemptied : (Action.write a (.collection { c with grown := false })).execute
          { s with store := s.store.write c.list (.list []) } = (.ok ⟨⟩, emptied s a c) := rfl
      unfold sortComparing
      rw [Action.execute_bind_of_ok (execute_read hholds.cell),
        Action.execute_bind_of_ok (execute_itemsOf hholds),
        Action.execute_bind_of_ok (fillList_ok hholds.list []),
        Action.execute_bind_of_ok hemptied, Action.execute_bind_of_ok hsorting]
      dsimp only
      rw [Action.execute_bind_of_ok (execute_read hempty.cell), Action.execute_get_bind,
        Action.execute_bind_of_ok (fillList_ok hempty.list _),
        Action.execute_bind_of_ok (Action.execute_write _ _ _)]
      have hleft : t.store.items c = [] := hempty.items
      dsimp only
      rw [hleft]
      rfl
    · exact Store.cell?_write_of_lt _ (Array.getElem?_eq_some_iff.mp hfilled.cell).1
    · exact (Store.cell?_write_of_ne _ (hfilled.ne_list hfilled).symm).trans hfilled.list

/-! ## Comparing keys -/

variable {ps : List (Value × Value)} {key : Key} {t u : State} {keyOrCmp : Value}

/-- The order of positions by the keys of the items. -/
def ByKey (ps : List (Value × Value)) (i j : Fin ps.length) : Prop :=
  ∃ m n, (ps.get i).1.measure? = some m ∧ (ps.get j).1.measure? = some n ∧ m ≤ n

instance : IsTrans (Fin ps.length) (ByKey ps) where
  trans := by
    rintro i j k ⟨m, n, hm, hn, hmn⟩ ⟨n', l, hn', hl, hnl⟩
    obtain rfl : n = n' := Option.some.inj (hn.symm.trans hn')
    exact ⟨m, l, hm, hl, hmn.trans hnl⟩

/-- Keys that are all numbers, or all texts, have an order among them. -/
theorem byKey_total (hkeys : (∀ p ∈ ps, p.1.IsNumber) ∨ ∀ p ∈ ps, p.1.IsText) :
    Std.Total (ByKey ps) where
  total := by
    intro i j
    have hordered : (ps.get i).1.Ordered (ps.get j).1 := by
      rcases hkeys with hnumbers | htexts
      · exact (hnumbers _ (ps.get_mem i)).ordered (hnumbers _ (ps.get_mem j))
      · exact (htexts _ (ps.get_mem i)).ordered (htexts _ (ps.get_mem j))
    obtain ⟨m, n, hm, hn, hle | hle⟩ := hordered
    · exact .inl ⟨m, n, hm, hn, hle⟩
    · exact .inr ⟨n, m, hn, hm, hle⟩

/-- What is before something in a direction does not come after it. -/
theorem stands_of_before {i j : Fin ps.length} {m n : WithBot (WithTop ℚ) ⊕ String}
    (hi : (ps.get i).1.measure? = some m) (hj : (ps.get j).1.measure? = some n) (h : Before d m n) :
    Stands d (ByKey ps) i j := by
  have hnot : ∀ {i j : Fin ps.length} {m n : WithBot (WithTop ℚ) ⊕ String},
      (ps.get i).1.measure? = some m → (ps.get j).1.measure? = some n → m < n → ¬ ByKey ps j i := by
    rintro i j m n hi hj hlt ⟨n', m', hj', hi', hle⟩
    obtain rfl : m = m' := Option.some.inj (hi.symm.trans hi')
    obtain rfl : n = n' := Option.some.inj (hj.symm.trans hj')
    exact hlt.not_ge hle
  cases d with
  | asc => exact ⟨⟨m, n, hi, hj, le_of_lt h⟩, fun hji => absurd hji (hnot hi hj h)⟩
  | desc => exact ⟨⟨n, m, hj, hi, le_of_lt h⟩, fun hij => absurd hij (hnot hj hi h)⟩

/-- Where every item has a key, a sort by key puts the positions in order as a comparator of the
keys does. -/
theorem Precedes.stands {i j : Fin ps.length} (h : Precedes d ps i j)
    (hthere : ∀ p ∈ ps, p.1.isAbsent = false) : Stands d (ByKey ps) i j := by
  cases h with
  | key hi hj h => exact stands_of_before hi hj h
  | @tie m hi hj h =>
    have hle : ∀ {i j : Fin ps.length}, (ps.get i).1.measure? = some m →
        (ps.get j).1.measure? = some m → ByKey ps i j := fun hi hj => ⟨m, m, hi, hj, le_refl m⟩
    cases d with
    | asc => exact ⟨hle hi hj, fun _ => h⟩
    | desc => exact ⟨hle hj hi, fun _ => h⟩
  | missing _ hj => cases (hthere _ (ps.get_mem j)).symm.trans hj
  | absent hi _ _ => cases (hthere _ (ps.get_mem i)).symm.trans hi

/-- A sort by keys, each of which is there. -/
theorem sortByKey_stands (hlists : s.store.Lists a (ps.map Prod.snd))
    (hfinds : Finds caller key a (ps.map Prod.snd) ps s t)
    (hkeys : (∀ p ∈ ps, p.1.IsNumber) ∨ ∀ p ∈ ps, p.1.IsText) :
    ∃ (order : List (Fin ps.length)) (u : State),
      (sortByKey caller a key d).execute s = (.ok ⟨⟩, u) ∧
      order.Perm (List.finRange ps.length) ∧ order.Pairwise (Stands d (ByKey ps)) ∧
      u.store.Lists a ((order.map ps.get).map Prod.snd) := by
  have hthere : ∀ p ∈ ps, p.1.isAbsent = false := by
    intro p hp
    rcases hkeys with hnumbers | htexts
    · obtain ⟨n, hn, -⟩ := hnumbers p hp
      exact Value.isAbsent_of_number? hn
    · obtain ⟨x, hx⟩ := htexts p hp
      rw [hx]
      rfl
  have hpresent : present ps = ps := List.filter_eq_self.mpr fun p hp => by rw [hthere p hp]; rfl
  obtain ⟨qs, u, hrun, hstable, hsorted, hitems⟩ :=
    sortByKey_ok (d := d) hfinds hlists (by rwa [hpresent])
  obtain ⟨order, hperm, hpairs, horder⟩ := Collection.exists_order hstable hsorted
  exact ⟨order, u, hrun, hperm, hpairs.imp fun h => h.stands hthere, horder ▸ hitems⟩

/-! ## Main statement -/

/-- The arguments of a sort ask for an order by a comparator. -/
structure AsksComparing (s : Store) (a : Address) (cmp direction : Value) (d : Direction) :
    Prop where
  direction : Directs s a direction d
  callable : s.isCallable cmp = true
  double : 2 ≤ Callback.arity s cmp

theorem execute_sort_comparing (h : AsksComparing s.store a cmp direction d) :
    (sort caller a cmp direction).execute s =
      (do sortComparing caller a cmp d; return .ref a : Action Value).execute s := by
  unfold sort
  rw [Action.execute_bind_of_ok (execute_directionOf h.direction), Action.execute_get_bind]
  dsimp only
  rw [if_pos ⟨h.callable, h.double⟩]

/-- A sort by a comparator that goes by one order whenever it is asked, in which equal items may
stand side by side, puts the items in that order, in both directions, and leaves equal items as
they stood.  When this is the order of keys that are all numbers, or all texts, a sort by these
keys in the same direction puts the items in the same places; at a path that does not break keys are
always found. -/
theorem sort_comparator (hasks : AsksComparing s.store a cmp direction d) :
    (∀ c xs (le : Fin xs.length → Fin xs.length → Prop) I, Std.Total le → IsTrans _ le →
      s.store.Holds a c xs → Judges caller cmp a c xs.get le I → I (emptied s a c) →
      ∃ (order : List (Fin xs.length)) (u : State),
        (sort caller a cmp direction).execute s = (.ok (.ref a), u) ∧
        order.Perm (List.finRange xs.length) ∧ order.Pairwise (Stands d le) ∧
        u.store.Lists a (order.map xs.get)) ∧
    (∀ c ps I, s.store.Holds a c (ps.map Prod.snd) →
      ((∀ p ∈ ps, p.1.IsNumber) ∨ ∀ p ∈ ps, p.1.IsText) →
      Judges caller cmp a c (fun i => (ps.get i).2) (ByKey ps) I → I (emptied s a c) →
      ∀ b t u keyOrCmp direction' key, Asks t.store b keyOrCmp direction' key d →
        t.store.Lists b (ps.map Prod.snd) → Finds caller key b (ps.map Prod.snd) ps t u →
        ∃ (order : List (Fin ps.length)) (v w : State),
          (sort caller a cmp direction).execute s = (.ok (.ref a), v) ∧
          (sort caller b keyOrCmp direction').execute t = (.ok (.ref b), w) ∧
          order.Perm (List.finRange ps.length) ∧ order.Pairwise (Stands d (ByKey ps)) ∧
          v.store.Lists a ((order.map ps.get).map Prod.snd) ∧
          w.store.Lists b ((order.map ps.get).map Prod.snd)) ∧
    ∀ b t vs p, t.store.Lists b vs → Path.Unbroken t vs (.str p) →
      ∃ ps u, ps.map Prod.snd = vs ∧ Finds caller (.path (.str p)) b vs ps t u := by
  have hrun : ∀ {u}, (sortComparing caller a cmp d).execute s = (.ok ⟨⟩, u) →
      (sort caller a cmp direction).execute s = (.ok (.ref a), u) := by
    intro u h
    rw [execute_sort_comparing hasks, Action.execute_bind_of_ok h]
    rfl
  refine ⟨?_, ?_, fun b t vs p hlists => finds_path p vs t hlists⟩
  · intro c xs le I htotal htrans hholds hjudges hstart
    have hitems : (List.finRange xs.length).map xs.get = xs := List.map_get_finRange xs
    obtain ⟨order, u, hsort, hperm, hpairs, hlists⟩ :=
      sortComparing_ok (d := d) (hitems.symm ▸ hholds) hjudges hstart
    exact ⟨order, u, hrun hsort, hperm, hpairs, hlists⟩
  · intro c ps I hholds hkeys hjudges hstart b t u keyOrCmp direction' key hby hlists hfinds
    have htotal := byKey_total hkeys
    have hitems : ∀ order : List (Fin ps.length),
        order.map (fun i => (ps.get i).2) = (order.map ps.get).map Prod.snd :=
      fun order => List.map_map.symm
    have hwhole : (List.finRange ps.length).map (fun i => (ps.get i).2) = ps.map Prod.snd := by
      rw [hitems, List.map_get_finRange]
    obtain ⟨order, v, hsort, hperm, hpairs, hthere⟩ :=
      sortComparing_ok (d := d) (hwhole.symm ▸ hholds) hjudges hstart
    obtain ⟨order', w, hsort', hperm', hpairs', hthere'⟩ :=
      sortByKey_stands (d := d) hlists hfinds hkeys
    -- Both sorts put the positions in order by one relation that tells any two of them apart.
    obtain rfl : order = order' := (hperm.trans hperm'.symm).eq_of_pairwise
      (fun _ _ _ _ hij hji => (hij.asymm hji).elim) hpairs hpairs'
    refine ⟨order, v, w, hrun hsort, ?_, hperm, hpairs, hitems order ▸ hthere, hthere'⟩
    rw [execute_sort hby, Action.execute_bind_of_ok hsort']
    rfl

/-- A comparator that gives the difference of two numbers. -/
def difference : Function := .closure ⟨2, 0, false⟩ (.binary .sub (.arg 0) (.arg 1)) none

/-- The difference of two numbers goes by their order. -/
theorem judges_difference (ns : List Int) {s : State}
    (hcell : s.store.cell? b = some (.function difference))
    (hholds : s.store.Holds a { c with grown := false } []) :
    Judges apply (.ref b) a c (fun i => ((ns.map fun n => (Value.int n, Value.int n)).get i).2)
      (ByKey (ns.map fun n => (.int n, .int n))) (· = s) where
  answers := by
    rintro _ rfl i j
    have hget : ∀ i : Fin (ns.map fun n => (Value.int n, Value.int n)).length,
        ∃ n, (ns.map fun n => (Value.int n, Value.int n)).get i = (.int n, .int n) := by
      intro i
      obtain ⟨n, -, hn⟩ := List.mem_map.mp (List.get_mem _ i)
      exact ⟨n, hn.symm⟩
    obtain ⟨x, hx⟩ := hget i
    obtain ⟨y, hy⟩ := hget j
    refine ⟨.int (x - y), (((x - y : ℤ) : ℚ) : WithTop ℚ), _, ?_, rfl, rfl, ?_⟩
    · rw [hx, hy]
      unfold apply callDepth applyAt
      rw [Action.execute_bind_of_ok (Action.execute_cell hcell)]
      rfl
    · have hle : ByKey (ns.map fun n => (.int n, .int n)) j i ↔ y ≤ x := by
        unfold ByKey
        rw [hx, hy]
        simp [Value.measure?, Value.number?, Number.isNaN, Number.exact, Sum.inl_le_inl_iff]
      have hnegative : ((((x - y : ℤ) : ℚ) : WithTop ℚ) : WithBot (WithTop ℚ)) < 0 ↔ x - y < 0 := by
        norm_cast
      rw [hle, hnegative]
      omega
  empty := by
    rintro _ rfl
    exact hholds

/-- Three numbers are sorted downwards by their differences, and likewise by themselves. -/
theorem sort_difference :
    (∃ (order : List (Fin 3)) (u : State),
      (sort apply ⟨5⟩ (.ref ⟨6⟩) (.str "DESC")).execute
        (holding [.int 5, .int 6, .int 5] difference) = (.ok (.ref ⟨5⟩), u) ∧
      order.Perm (List.finRange 3) ∧
      order.Pairwise (Stands .desc (ByKey ([5, 6, 5].map fun n => (.int n, .int n)))) ∧
      u.store.Lists ⟨5⟩ (order.map [Value.int 5, .int 6, .int 5].get)) ∧
    (∃ ys v w,
      (sort apply ⟨5⟩ (.ref ⟨6⟩) (.str "DESC")).execute
        (holding [.int 5, .int 6, .int 5] difference) = (.ok (.ref ⟨5⟩), v) ∧
      (sort apply ⟨5⟩ .null (.str "DESC")).execute
        (holding [.int 5, .int 6, .int 5] difference) = (.ok (.ref ⟨5⟩), w) ∧
      v.store.Lists ⟨5⟩ ys ∧ w.store.Lists ⟨5⟩ ys) ∧
    ∃ ps u, ps.map Prod.snd = [.int 5, .int 6, .int 5] ∧
      Finds apply (.path (.str "a")) ⟨5⟩ [.int 5, .int 6, .int 5] ps
        (holding [.int 5, .int 6, .int 5] difference) u := by
  let xs : List Value := [.int 5, .int 6, .int 5]
  let ps : List (Value × Value) := [5, 6, 5].map fun n => (.int n, .int n)
  let c : Collection :=
    { list := ⟨4⟩, validators := ⟨3⟩, policy := ⟨0⟩, registry := ⟨1⟩, generator := ⟨2⟩ }
  have hholds : (holding xs difference).store.Holds ⟨5⟩ c xs := ⟨rfl, rfl⟩
  have hasks : AsksComparing (holding xs difference).store ⟨5⟩ (.ref ⟨6⟩) (.str "DESC") .desc :=
    ⟨.text (by decide +kernel), by decide, by decide⟩
  have hnumber : ∀ n : Int, (Value.int n).IsNumber := fun n => ⟨.int n, rfl, rfl⟩
  have hkeys : ∀ p ∈ ps, p.1.IsNumber := by simp [ps, hnumber]
  have hjudges := judges_difference (b := ⟨6⟩) (a := ⟨5⟩) (c := c) [5, 6, 5]
    (s := emptied (holding xs difference) ⟨5⟩ c) rfl ⟨rfl, rfl⟩
  have hitem : (fun i => (ps.get i).2) = xs.get := by
    funext i
    match i with
    | ⟨0, _⟩ | ⟨1, _⟩ | ⟨2, _⟩ => rfl
  have h := @sort_comparator apply ⟨5⟩ (holding xs difference) _ _ _ hasks
  have hunbroken : Path.Unbroken (holding xs difference) xs (.str "a") :=
    Path.unbroken_of_name (show Path.route "a" = ["a"] by decide +kernel) (by simp [xs])
  refine ⟨?_, ?_, h.2.2 ⟨5⟩ _ xs "a" ⟨c, hholds⟩ hunbroken⟩
  · exact h.1 c xs (ByKey ps) (· = emptied (holding xs difference) ⟨5⟩ c)
      (byKey_total (.inl hkeys)) (inferInstanceAs (IsTrans (Fin ps.length) (ByKey ps))) hholds
      (hitem ▸ hjudges) rfl
  · obtain ⟨order, v, w, hrun, hrun', -, -, hv, hw⟩ := h.2.1 c ps _ hholds (.inl hkeys) hjudges rfl
      ⟨5⟩ _ _ _ _ _ (asks_itself _) ⟨c, hholds⟩ (finds_itself ⟨c, hholds⟩ xs)
    exact ⟨_, v, w, hrun, hrun', hv, hw⟩

/-- A key that depends on how many items there are. -/
def timesLength : Function :=
  .closure ⟨1, 0, false⟩ (.binary .mul (.arg 0) (.length (.lit (.ref ⟨5⟩)))) none

/-- The comparator of these keys. -/
def differenceTimesLength : Function :=
  .closure ⟨2, 0, false⟩
    (.binary .sub (.binary .mul (.arg 0) (.length (.lit (.ref ⟨5⟩))))
      (.binary .mul (.arg 1) (.length (.lit (.ref ⟨5⟩))))) none

/-- The comparator of items that are their own keys. -/
def comparison : Function :=
  .closure ⟨2, 0, false⟩
    (.binary .sub (.binary (.compare .greater) (.arg 0) (.arg 1))
      (.binary (.compare .less) (.arg 0) (.arg 1))) none

/-- A comparator that puts an item into the receiver. -/
def pushing : Function :=
  .closure ⟨2, 0, false⟩
    (.seq [.call (.lit (.ref ⟨5⟩)) "push" [.lit (.int 0)], .binary .sub (.arg 0) (.arg 1)]) none

/-- What the collection holds after a sort, however that ends. -/
def itemsAfter (s : State) (f : Value) : Except Error (List Int) :=
  ((numbersOf (.ref ⟨5⟩)).execute ((sort apply ⟨5⟩ f (.str "asc")).execute s).2).1

/-- Keys that depend on the receiver are other ones while a comparator finds no items there; where
keys have no order a sort by key leaves the items as they were, and a sort by a comparator leaves
them as far as it came; and a comparator that changes the receiver makes the sort fail. -/
theorem sort_timesLength_comparison_pushing :
    (itemsAfter (holding [.int 3, .int 1, .int 2] timesLength) (.ref ⟨6⟩) = .ok [1, 2, 3] ∧
      itemsAfter (holding [.int 3, .int 1, .int 2] differenceTimesLength) (.ref ⟨6⟩) =
        .ok [3, 1, 2]) ∧
    (itemsAfter (holding [.int 2, .int 3, .int 1, .str "a"] comparison) .null = .ok [2, 3, 1] ∧
      itemsAfter (holding [.int 2, .int 3, .int 1, .str "a"] comparison) (.ref ⟨6⟩) =
        .ok [1, 2, 3]) ∧
    ((sort apply ⟨5⟩ (.ref ⟨6⟩) (.str "asc")).execute
      (holding [.int 2, .int 1] pushing)).1.toOption = none := by
  decide +kernel

end Recordset.Collection
