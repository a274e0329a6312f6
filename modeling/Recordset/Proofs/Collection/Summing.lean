import Recordset.Proofs.Collection.Extremes
import Recordset.Proofs.Collection.Grouping
import Recordset.Proofs.Collection.Paging
set_option autoImplicit false

/-!
# Sums over parts

Each item counts for a number in a sum of keys, for none where its key is no number
(`Aggregate.Counts`, `Collection.Weighs`).  A collection then has the sum of these numbers, and
keeps it in all that comes later (`Collection.Sums`).  Whatever puts each item of a collection into
one of several parts therefore leaves the sums of the parts with the sum of the whole: chunks,
buckets, the items that pass a test and those that do not; and so does what puts two collections
together.

`Collection.sum_additive` is the main statement.
-/

namespace Recordset

/-! ## Parts of a list -/

section

variable {α β : Type} [BEq β] [LawfulBEq β]

/-- A list is put into parts by the values of a function, one part for each value. -/
theorem flatten_filter_perm (f : α → β) : ∀ {values : List β} {xs : List α}, values.Nodup →
    (∀ x ∈ xs, f x ∈ values) → (values.map fun v => xs.filter (f · == v)).flatten.Perm xs := by
  intro values
  induction values with
  | nil =>
    intro xs _ hxs
    obtain rfl : xs = [] := List.eq_nil_iff_forall_not_mem.mpr fun x hx => by cases hxs x hx
    exact .refl _
  | cons v values ih =>
    intro xs hdistinct hxs
    obtain ⟨hv, hdistinct⟩ := List.nodup_cons.mp hdistinct
    have hrest : (values.map fun w => xs.filter (f · == w)) =
        values.map fun w => (xs.filter fun x => !(f x == v)).filter (f · == w) := by
      refine List.map_congr_left fun w hw => ?_
      rw [List.filter_filter]
      refine List.filter_congr fun x _ => ?_
      cases hfound : f x == w with
      | false => rfl
      | true =>
        obtain rfl := eq_of_beq hfound
        have hne : (f x == v) = false := beq_eq_false_iff_ne.mpr fun h => hv (h ▸ hw)
        rw [hne]
        rfl
    have hthere : ∀ x ∈ xs.filter fun x => !(f x == v), f x ∈ values := by
      intro x hx
      obtain ⟨hx, hne⟩ := List.mem_filter.mp hx
      refine (List.mem_cons.mp (hxs x hx)).resolve_left fun h => ?_
      rw [h, beq_self_eq_true] at hne
      cases hne
    rw [List.map_cons, List.flatten_cons, hrest]
    exact ((ih hdistinct hthere).append_left _).trans (List.filter_append_perm (f · == v) xs)

end

namespace Collection

variable {xs ys : List Value} {keep : Nat → Bool} {name : Nat → String} {held : List Nat}

/-- What is at all positions of a list, one after another. -/
theorem filterMap_range_getElem? (xs : List Value) :
    (List.range xs.length).filterMap (xs[·]?) = xs := by
  have hall : pick (fun _ => true) xs = xs := pick_eq_self_iff.mpr fun _ _ => rfl
  rwa [pick, picked, List.filter_true] at hall

/-- The items at the kept positions and those at the others are the items of the list. -/
theorem pick_append_perm : (pick keep xs ++ pick (!keep ·) xs).Perm xs := by
  unfold pick picked
  rw [← List.filterMap_append]
  refine ((List.filter_append_perm keep (List.range xs.length)).filterMap _).trans ?_
  rw [filterMap_range_getElem?]

/-- The items in all buckets are the items of the list. -/
theorem buckets_perm (hheld : KeepsFirsts (SameName name) xs.length held) :
    (held.map (bucket name xs)).flatten.Perm xs := by
  have hdistinct : (held.map name).Nodup :=
    List.pairwise_map.mpr ((names_distinct hheld).imp fun h => h)
  have hthere : ∀ i ∈ List.range xs.length, name i ∈ held.map name := by
    intro i hi
    obtain ⟨j, ⟨hj, hname⟩, -⟩ := existsUnique_held hheld (List.mem_range.mp hi)
    exact List.mem_map.mpr ⟨j, hj, hname⟩
  have hparts := (flatten_filter_perm name hdistinct hthere).filterMap (xs[·]?)
  rw [filterMap_range_getElem?, List.filterMap_flatten, List.map_map, List.map_map] at hparts
  exact hparts

end Collection

/-! ## What keys count for -/

namespace Aggregate

/-- What a key counts for in a sum: a whole number for itself, what is no number for nothing. -/
def Counts (k : Value) (n : Int) : Prop :=
  summand? k = some (.int n) ∨ summand? k = none ∧ n = 0

theorem Counts.add {k : Value} {m n : Int} (h : Counts k n) (count : Nat) :
    ∃ more, Sum.add ⟨.int m, count⟩ k = .ok ⟨.int (m + n), more⟩ := by
  unfold Sum.add
  rcases h with h | ⟨h, rfl⟩
  · rw [h]
    exact ⟨count + 1, rfl⟩
  · rw [h, Int.add_zero]
    exact ⟨count, rfl⟩

end Aggregate

namespace Collection

open Aggregate (Counts)

variable {caller : Caller} {a b : Address} {c : Collection} {keyOrFn k : Value} {xs ys : List Value}
  {weight : Value → Int} {n m : Int} {s t u : State}

/-- The keys that an argument asks for count for the weights of the items: without an argument the
items themselves, otherwise what is found at a path, or what a callback of one argument gives that
is pure. -/
inductive Weighs (caller : Caller) (xs : List Value) (weight : Value → Int) (s : State) :
    Value → Prop where
  | itself (h : ∀ x ∈ xs, Counts x (weight x)) : Weighs caller xs weight s .null
  | path {name : String} (hwhole : s.Whole) (hroot : s.store.Rooted) (hmade : ∀ x ∈ xs, s.Made x)
    (h : ∀ x ∈ xs, ∃ k u, (Path.value x (.str name)).execute s = (.ok k, u) ∧
      Counts k (weight x)) :
    Weighs caller xs weight s (.str name)
  | callback {f : Value} (hcallable : s.store.isCallable f = true)
    (harity : ∀ t, s.Later t → Callback.arity t.store f = 1)
    (h : ∀ t, s.Later t → ∀ x ∈ xs, ∃ k u, (caller f [x]).execute t = (.ok k, u) ∧ t.Later u ∧
      Counts k (weight x)) :
    Weighs caller xs weight s f

theorem Weighs.knows (h : Weighs caller xs weight s keyOrFn) : s.store.Knows keyOrFn := by
  cases h with
  | itself => trivial
  | path => trivial
  | callback hcallable => exact Store.knows_of_isCallable hcallable

/-- In every later state the key of an item is found, and counts for its weight. -/
theorem Weighs.find_ok (h : Weighs caller xs weight s keyOrFn) (ht : s.Later t) {x : Value}
    (hx : x ∈ xs) (i : Nat) :
    ∃ k u, ((Key.of s.store keyOrFn).find caller x i).execute t = (.ok k, u) ∧ t.Later u ∧
      Counts k (weight x) := by
  cases h with
  | itself h => exact ⟨x, t, rfl, .refl t, h x hx⟩
  | @path name hwhole hroot hmade h =>
    obtain ⟨k, u, hrun, hcounts⟩ := h x hx
    cases Path.value_together (.refl s) ht hwhole hroot (hmade x hx) name with
    | failed hfailed => cases hrun.symm.trans hfailed
    | @given k₀ k' _ w hfound hrun' _ hw _ halike =>
      cases hrun.symm.trans hfound
      have hsame : Aggregate.summand? k' = Aggregate.summand? k := by
        cases halike <;> rfl
      refine ⟨k', w, hrun', hw, ?_⟩
      unfold Counts
      rwa [hsame]
  | callback hcallable harity h =>
    obtain ⟨k, u, hrun, hu, hk⟩ := h t ht x hx
    have hkey : Key.of s.store keyOrFn = .callback keyOrFn := if_pos hcallable
    rw [hkey]
    exact ⟨k, u, (execute_call_one (harity t ht) (.inl Nat.one_lt_two)).trans hrun, hu, hk⟩

/-! ## Sums -/

/-- From a state on, and in all that comes later, the keys of a collection have a sum, and asking
for it is pure. -/
def Sums (caller : Caller) (keyOrFn : Value) (a : Address) (n : Int) (s : State) : Prop :=
  ∀ t, s.Later t → ∃ u, (sum caller a keyOrFn).execute t = (.ok (.int n), u) ∧ t.Later u

/-- What the items of a list count for together. -/
def total (weight : Value → Int) (xs : List Value) : Int := (xs.map weight).sum

theorem total_append : total weight (xs ++ ys) = total weight xs + total weight ys := by
  simp [total]

theorem total_perm (h : xs.Perm ys) : total weight xs = total weight ys := (h.map weight).sum_eq

theorem sum_total (parts : List (List Value)) :
    (parts.map (total weight)).sum = total weight parts.flatten := by
  induction parts with
  | nil => rfl
  | cons ys parts ih => rw [List.map_cons, List.sum_cons, ih, List.flatten_cons, total_append]

theorem execute_sum :
    (sum caller a keyOrFn).execute s = (do
      let sum ← fold a ({} : Aggregate.Sum) fun sum item i => do
        let k ← (Key.of s.store keyOrFn).draw caller item i
        Action.ofExcept (sum.add k)
      sum.result).execute s := by
  unfold sum keyOf fold Source.summed
  rw [bind_assoc, Action.execute_get_bind, pure_bind, bind_assoc]

/-- A collection of some of the items has the sum of their weights. -/
theorem Weighs.sums (h : Weighs caller xs weight s keyOrFn) (ht : s.Later t)
    (hlists : t.store.Lists b ys) (hys : ∀ y ∈ ys, y ∈ xs) :
    Sums caller keyOrFn b (total weight ys) t := by
  intro u hu
  obtain ⟨d, hholds⟩ := hlists
  have hkey : Key.of u.store keyOrFn = Key.of s.store keyOrFn :=
    Key.of_later (ht.trans hu) h.knows
  have hfold : ∃ sum w, (fold b ({} : Aggregate.Sum) fun sum item i => do
        let k ← (Key.of u.store keyOrFn).draw caller item i
        Action.ofExcept (sum.add k)).execute u = (.ok sum, w) ∧
      sum.total = .int (total weight (ys.take ys.length)) ∧ u.Later w := by
    refine fold_ok (c := d)
      (fun i (sum : Aggregate.Sum) w => sum.total = .int (total weight (ys.take i)) ∧ u.Later w)
      (fun i sum w h => hholds.extends (hu.trans h.2).extends) ⟨rfl, .refl u⟩ ?_
    rintro i hi ⟨sum, count⟩ v ⟨rfl, hv⟩
    obtain ⟨k, w, hfind, hw, hk⟩ :=
      h.find_ok (ht.trans (hu.trans hv)) (hys _ (List.getElem_mem hi)) i
    obtain ⟨more, hadd⟩ := hk.add (m := total weight (ys.take i)) count
    rw [hkey]
    refine ⟨⟨.int (total weight (ys.take i) + weight ys[i]), more⟩, w, ?_, ?_, hv.trans hw⟩
    · unfold Key.draw
      rw [Action.execute_bind_of_ok (execute_drawing hfind), hadd]
      rfl
    · rw [← List.take_append_getElem hi, total_append]
      simp [total]
  obtain ⟨sum, w, hrun, htotal, hw⟩ := hfold
  refine ⟨w, ?_, hw⟩
  rw [execute_sum, Action.execute_bind_of_ok hrun]
  unfold Aggregate.Sum.result
  rw [htotal, List.take_length]
  rfl

/-! ## Putting collections together -/

/-- A collection stands for its items. -/
theorem execute_initialItems (hholds : s.store.Holds b c ys) :
    (initialItems (.ref b)).execute s = (.ok ys, s) := by
  have hview : s.store.view (.ref b) = some (.collection c) := hholds.cell
  have hiterable : (s.store.isMapping (.ref b) || !s.store.isIterable (.ref b)) = false := by
    simp [Store.isMapping, Store.entries?, Store.isIterable, hview]
  have helements : s.store.elements (.ref b) = .ok ys := by
    simp [Store.elements, hview, hholds.items]
  unfold initialItems
  dsimp only
  rw [Action.execute_get_bind, hiterable, if_neg Bool.false_ne_true]
  unfold Action.iterate
  rw [Action.execute_bind, Action.execute_look, helements]
  dsimp only
  rw [Action.execute_bind_of_ok (Action.execute_cell hholds.cell)]
  rfl

theorem concat_ok (hlists : s.store.Lists a xs) (hother : s.store.Lists b ys) :
    ∃ d t, (concat a [.ref b]).execute s = (.ok (.ref d), t) ∧ s.Later t ∧
      t.store.Lists d (xs ++ ys) := by
  obtain ⟨c, hholds⟩ := hlists
  obtain ⟨c', hholds'⟩ := hother
  obtain ⟨d, e, t, hrun, ht, hthere, -⟩ := derived_ok hholds.cell (xs ++ ys)
  refine ⟨d, t, ?_, ht, e, hthere⟩
  unfold concat concatAll
  rw [Action.execute_bind_of_ok (execute_itemsOf hholds), bind_assoc,
    Action.execute_bind_of_ok (execute_initialItems hholds')]
  unfold concatAll
  exact hrun

/-! ## Main statement -/

/-- A query is compiled, after which the items are as they were, and what it comes to decides for
each of them whether it is kept, without failing and without changing anything. -/
structure Parts (caller : Caller) (a : Address) (spec : Value) (xs : List Value) (keep : Nat → Bool)
    (s t : State) : Prop where
  lists : t.store.Lists a xs
  tests : ∃ e, (compile caller a spec).execute s = (.ok e, t) ∧
    ∀ u, t.Later u → ∀ i (hi : i < xs.length),
      ∃ w, (e.test caller xs[i] i).execute u = (.ok (keep i), w) ∧ u.Later w

/-- Sums of keys that count for whole numbers are additive: the sum of two collections put together
is that of the one and that of the other, and the sum of a collection is that of the items that
pass a test and that of the others, that of all buckets, and that of all chunks; and it does not
depend on the order of the items. -/
theorem sum_additive (hlists : s.store.Lists a xs) (hweighs : Weighs caller xs weight s keyOrFn) :
    Sums caller keyOrFn a (total weight xs) s ∧
    (∀ b ys, s.store.Lists b ys → ys.Perm xs → Sums caller keyOrFn b (total weight xs) s) ∧
    (∀ b ys, s.store.Lists b ys → Weighs caller (xs ++ ys) weight s keyOrFn →
      Sums caller keyOrFn b (total weight ys) s ∧
      ∃ d t, (concat a [.ref b]).execute s = (.ok (.ref d), t) ∧ s.Later t ∧
        Sums caller keyOrFn d (total weight xs + total weight ys) t) ∧
    (∀ spec keep t, Parts caller a spec xs keep s t → Weighs caller xs weight t keyOrFn →
      ∃ v p q u m n, (partition caller a spec).execute s = (.ok (.ref v), u) ∧
        u.store.cell? v = some (.tuple [.ref p, .ref q]) ∧ Sums caller keyOrFn p m u ∧
        Sums caller keyOrFn q n u ∧ m + n = total weight xs) ∧
    (∀ groupKey name, NamesKeys caller (Key.of s.store groupKey) xs name s →
      ∃ es b t ns, (groupBy caller a groupKey).execute s = (.ok (.ref b), t) ∧ s.Later t ∧
        t.store.cell? b = some (.dict es) ∧
        List.Forall₂ (fun n e => ∃ d, e.2 = .ref d ∧ Sums caller keyOrFn d n t) ns es ∧
        ns.sum = total weight xs) ∧
    ∀ size : Nat, 1 ≤ size →
      ∃ b qs t ns, (chunk a (.int size)).execute s = (.ok (.ref b), t) ∧ s.Later t ∧
        t.store.Lists b qs ∧
        List.Forall₂ (fun n q => ∃ d, q = .ref d ∧ Sums caller keyOrFn d n t) ns qs ∧
        ns.sum = total weight xs := by
  refine ⟨hweighs.sums (.refl s) hlists fun _ h => h, ?_, ?_, ?_, ?_, ?_⟩
  · intro b ys hys hperm
    rw [← total_perm hperm]
    exact hweighs.sums (.refl s) hys fun _ h => hperm.mem_iff.mp h
  · intro b ys hys hboth
    obtain ⟨d, t, hrun, ht, hthere⟩ := concat_ok hlists hys
    refine ⟨hboth.sums (.refl s) hys fun _ h => List.mem_append_right _ h, d, t, hrun, ht, ?_⟩
    rw [← total_append]
    exact hboth.sums ht hthere fun _ h => h
  · rintro spec keep t ⟨hthere, e, hcompile, htest⟩ hlater
    obtain ⟨c, hholds⟩ := hthere
    obtain ⟨v, u, w, b, d, p, q, hrun, hu, hw, htuple, hp, hq⟩ := partition_invariant hcompile
      (fun u (hu : t.Later u) => hholds.extends hu.extends) (.refl t) fun u hu i hi => by
        obtain ⟨w, htests, hw⟩ := htest u hu i hi
        exact ⟨w, htests, hu.trans hw⟩
    have hmem : ∀ x ∈ pick keep xs ++ pick (!keep ·) xs, x ∈ xs := fun _ =>
      pick_append_perm.mem_iff.mp
    refine ⟨v, p, q, w, _, _, hrun, htuple, hlater.sums (hu.trans hw) ⟨b, hp⟩ fun x hx =>
      hmem x (List.mem_append_left _ hx), hlater.sums (hu.trans hw) ⟨d, hq⟩ fun x hx =>
      hmem x (List.mem_append_right _ hx), ?_⟩
    rw [← total_append, total_perm pick_append_perm]
  · intro groupKey name hnames
    obtain ⟨held, es, b, t, hheld, hrun, ht, hcell, hgroups⟩ := groupBy_ok hlists hnames
    have hperm := buckets_perm hheld
    have hmem : ∀ j ∈ held, ∀ x ∈ bucket name xs j, x ∈ xs := fun j hj x hx =>
      hperm.mem_iff.mp (List.mem_flatten.mpr ⟨_, List.mem_map_of_mem hj, hx⟩)
    refine ⟨es, b, t, (held.map (bucket name xs)).map (total weight), hrun, ht, hcell, ?_, ?_⟩
    · rw [List.map_map, List.forall₂_map_left_iff]
      exact ((List.forall₂_and_left _ _).mpr ⟨hmem, hgroups⟩).imp
        fun j e ⟨hj, d, he, hd⟩ => ⟨d, by rw [he], hweighs.sums ht hd hj⟩
    · rw [sum_total, total_perm hperm]
  · intro size hsize
    obtain ⟨b, d, qs, t, hrun, ht, hholds, hchunks⟩ := chunk_ok hlists hsize
    have hwhole : ((List.range (partCount size xs.length)).map (part size xs)).flatten = xs :=
      flatten_pieces hsize
    have hmem : ∀ ys ∈ (List.range (partCount size xs.length)).map (part size xs),
        ∀ y ∈ ys, y ∈ xs := fun ys hys y hy => hwhole ▸ List.mem_flatten.mpr ⟨ys, hys, hy⟩
    refine ⟨b, qs, t, ((List.range (partCount size xs.length)).map (part size xs)).map
      (total weight), hrun, ht, ⟨d, hholds⟩, ?_, ?_⟩
    · rw [List.forall₂_map_left_iff]
      exact ((List.forall₂_and_left _ _).mpr ⟨hmem, hchunks⟩).imp
        fun ys q ⟨hys, e, hq, he⟩ => ⟨e, hq, hweighs.sums ht he hys⟩
    · rw [sum_total, hwhole]

/-- What a number counts for, and anything else. -/
def numberOf (v : Value) : Int := if v.isBool then 0 else v.index?.getD 0

/-- The sum of three numbers is that of two of them and of the other one, in all ways. -/
theorem sum_threeNumbers :
    Sums apply .null ⟨5⟩ 16 threeNumbers ∧
    (∃ d t, (concat ⟨5⟩ [.ref ⟨5⟩]).execute threeNumbers = (.ok (.ref d), t) ∧
      Sums apply .null d 32 t) ∧
    (∃ v p q u m n, (partition apply ⟨5⟩ (.ref ⟨6⟩)).execute threeNumbers = (.ok (.ref v), u) ∧
      u.store.cell? v = some (.tuple [.ref p, .ref q]) ∧ Sums apply .null p m u ∧
      Sums apply .null q n u ∧ m + n = 16) ∧
    (∃ es b t ns, (groupBy apply ⟨5⟩ .null).execute threeNumbers = (.ok (.ref b), t) ∧
      t.store.cell? b = some (.dict es) ∧
      List.Forall₂ (fun n e => ∃ d, e.2 = .ref d ∧ Sums apply .null d n t) ns es ∧ ns.sum = 16) ∧
    ∃ b qs t ns, (chunk ⟨5⟩ (.int 2)).execute threeNumbers = (.ok (.ref b), t) ∧
      t.store.Lists b qs ∧
      List.Forall₂ (fun n q => ∃ d, q = .ref d ∧ Sums apply .null d n t) ns qs ∧ ns.sum = 16 := by
  let xs : List Value := [.int 5, .int 6, .int 5]
  have hlists : threeNumbers.store.Lists ⟨5⟩ xs := ⟨_, rfl, rfl⟩
  have hcounts : ∀ x ∈ xs ++ xs, Counts x (numberOf x) := by
    simp [xs, Counts, Aggregate.summand?, numberOf, Value.isBool, Value.index?]
  have hnames : NamesKeys apply (.path (.str Path.itself)) xs
      (fun i => if i = 1 then "6" else "5") threeNumbers := by
    intro t ht i hi
    have hcases : i = 0 ∨ i = 1 ∨ i = 2 := by
      simp [xs] at hi
      omega
    obtain ⟨_, hfive, rfl⟩ : ∃ text, threeNumbers.store.text (.int 5) = .ok text ∧ text = "5" := by
      decide +kernel
    obtain ⟨_, hsix, rfl⟩ : ∃ text, threeNumbers.store.text (.int 6) = .ok text ∧ text = "6" := by
      decide +kernel
    rcases hcases with rfl | rfl | rfl
    · exact ⟨_, t, rfl, .refl t, .text rfl hfive⟩
    · exact ⟨_, t, rfl, .refl t, .text rfl hsix⟩
    · exact ⟨_, t, rfl, .refl t, .text rfl hfive⟩
  have hparts : Parts apply ⟨5⟩ (.ref ⟨6⟩) xs (fun i => i % 2 == 0) threeNumbers threeNumbers :=
    ⟨hlists, .predicate (.ref ⟨6⟩), rfl, fun u hu i hi =>
      ⟨u, test_everySecond (hu.grows.cells _ _ rfl) _ hi, .refl u⟩⟩
  have hweighs : Weighs apply xs numberOf threeNumbers .null :=
    .itself fun x hx => hcounts x (List.mem_append_left _ hx)
  obtain ⟨hsum, -, hconcat, hpartition, hgroups, hchunks⟩ := sum_additive hlists hweighs
  obtain ⟨-, d, t, hrun, -, hboth⟩ := hconcat ⟨5⟩ xs hlists (.itself hcounts)
  obtain ⟨es, b, t', ns, hrun', -, hgroups⟩ := hgroups .null _ hnames
  obtain ⟨b', qs, t'', ns', hrun'', -, hchunks⟩ := hchunks 2 (by decide)
  exact ⟨hsum, ⟨d, t, hrun, hboth⟩, hpartition _ _ _ hparts hweighs,
    ⟨es, b, t', ns, hrun', hgroups⟩, b', qs, t'', ns', hrun'', hchunks⟩

/-- A key that has too many digits to be written: the sixteenth power of an item. -/
def sixteenth : Function :=
  .closure ⟨1, 0, false⟩ (Nat.iterate (fun e => .binary .mul e e) 4 (.arg 0)) none

/-- A collection of a mapping, and a query whose operator changes the mapping when it is asked for a
test. -/
def changing : State where
  store := { cells := #[
    .policy {},
    .registry {},
    .generator ⟨0⟩,
    .dict [(.str "$set", .ref ⟨7⟩)],
    .list [.ref ⟨6⟩],
    .collection
      { list := ⟨4⟩, validators := ⟨3⟩, policy := ⟨0⟩, registry := ⟨1⟩, generator := ⟨2⟩ },
    .dict [(.str "n", .int 1)],
    .function (.factory (some (.assign (.lit (.ref ⟨6⟩)) (.lit (.str "n")) (.lit (.int 5))))
      (.predicate (.lit (.bool true)))),
    .dict [(.str "n", .ref ⟨9⟩)],
    .dict [(.str "$set", .int 0)]] }

/-- The sum of what is found at a name in a collection. -/
def sumOf (v : Value) : Action (Option Int) := do
  match v with
  | .ref a => return (← sum apply a (.str "n")).index?
  | _ => return none

/-- A number that cannot be written names no bucket; and where an operator changes an item when it
is asked for a test, the parts have another sum than the whole had. -/
theorem sum_sixteenth_changing :
    (∃ e, ((groupBy apply ⟨5⟩ (.ref ⟨6⟩)).execute
        (holding [.int (Int.ofNat (Nat.pow 10 300))] sixteenth)).1 = .error e ∧
      e = .fault .value) ∧
    ∃ sums, ((do
        let whole ← sumOf (.ref ⟨5⟩)
        let parts ← Action.iterate (← partition apply ⟨5⟩ (.ref ⟨8⟩))
        return (whole, ← parts.mapM sumOf)).execute changing).1 = .ok sums ∧
      sums = (some 1, [some 5, some 0]) := by
  decide +kernel

end Collection

end Recordset
