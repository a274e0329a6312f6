import Recordset.Collection.Transform
import Recordset.Proofs.Collection.Visit
set_option autoImplicit false

/-!
# Pages and chunks

A list is cut into parts of one size, the last one shorter where it has to be (`Collection.part`).
`Collection.chunk` cuts by dropping what has been taken; `Collection.paginate` takes one part by the
numbers of the elements before its start and before its end, and tells by a comparison whether there
is a next one. Going from page to page as the pages tell is a walk (`Collection.Walk`).

`Collection.walk_visits_chunks` is the main statement.
-/

namespace Recordset.Collection

/-! ## The parts of a list -/

section

variable {α : Type} {size n i m : Nat} {xs : List α}

/-- How many parts of a size a list of a length has. -/
def partCount (size n : Nat) : Nat := (n + size - 1) / size

/-- The part at a position. -/
def part (size : Nat) (xs : List α) (i : Nat) : List α := (xs.drop (i * size)).take size

theorem lt_partCount_iff (hsize : 1 ≤ size) : i < partCount size n ↔ i * size < n := by
  unfold partCount
  rw [← Nat.succ_le_iff, Nat.le_div_iff_mul_le hsize, Nat.succ_mul]
  omega

theorem partCount_of_pos (hsize : 1 ≤ size) (hn : 1 ≤ n) :
    partCount size n = partCount size (n - size) + 1 := by
  unfold partCount
  have hfirst : n + size - 1 = (n - 1) + size := by omega
  rw [hfirst, Nat.add_div_right _ hsize]
  rcases Nat.lt_or_ge n size with hlt | hge
  · rw [Nat.div_eq_of_lt (by omega), Nat.div_eq_of_lt (by omega)]
  · have hrest : n - size + size - 1 = n - 1 := by omega
    rw [hrest]

theorem part_succ : part size xs (i + 1) = part size (xs.drop size) i := by
  unfold part
  rw [List.drop_drop, Nat.succ_mul, Nat.add_comm]

/-- Cutting gives the parts, one after another. -/
theorem pieces_eq (hsize : 1 ≤ size) : ∀ (fuel : Nat) (xs : List α), xs.length ≤ fuel →
    pieces size fuel xs = (List.range (partCount size xs.length)).map (part size xs) := by
  have hnone : partCount size 0 = 0 := by
    refine Nat.eq_zero_of_not_pos fun hpos => ?_
    exact absurd ((lt_partCount_iff hsize).mp hpos) (Nat.not_lt_zero _)
  intro fuel
  induction fuel with
  | zero =>
    intro xs hle
    rw [Nat.le_zero.mp hle, hnone]
    rfl
  | succ fuel ih =>
    intro xs hle
    cases xs with
    | nil =>
      rw [List.length_nil, hnone]
      rfl
    | cons x xs =>
      have hrest : ((x :: xs).drop size).length ≤ fuel := by
        rw [List.length_drop]
        omega
      have hfirst : part size (x :: xs) 0 = (x :: xs).take size := by
        unfold part
        rw [Nat.zero_mul, List.drop_zero]
      have hpos : 1 ≤ (x :: xs).length := Nat.succ_pos xs.length
      show (x :: xs).take size :: pieces size fuel ((x :: xs).drop size) = _
      rw [ih _ hrest, partCount_of_pos hsize hpos, List.range_succ_eq_map, List.map_cons,
        List.map_map, hfirst, List.length_drop]
      exact congrArg _ (List.map_congr_left fun i _ => part_succ.symm)

theorem length_part : (part size xs i).length = min size (xs.length - i * size) := by
  unfold part
  rw [List.length_take, List.length_drop]

theorem part_eq_nil_iff (hsize : 1 ≤ size) : part size xs i = [] ↔ xs.length ≤ i * size := by
  rw [← List.length_eq_zero_iff, length_part]
  omega

/-- The first parts together are what comes first in the list. -/
theorem flatten_parts : ((List.range m).map (part size xs)).flatten = xs.take (m * size) := by
  induction m with
  | zero => simp
  | succ m ih =>
    rw [List.range_succ, List.map_append, List.flatten_append, ih, List.map_singleton,
      List.flatten_singleton, Nat.succ_mul, List.take_add]
    rfl

/-- All parts of a size together are the list. -/
theorem flatten_pieces (hsize : 1 ≤ size) :
    ((List.range (partCount size xs.length)).map (part size xs)).flatten = xs := by
  have hend := lt_partCount_iff (i := partCount size xs.length) (n := xs.length) hsize
  rw [flatten_parts, List.take_of_length_le (by omega)]

theorem bound_natCast (n k : Nat) : Slice.bound n k = min n k := by
  unfold Slice.bound Slice.clamp
  dsimp only
  omega

/-- A slice by the numbers of the elements before a part and before the next one is the part. -/
theorem take_eq_part (size i : Nat) (xs : List α) :
    Slice.take xs (some (((i : Int) + 1 - 1) * size)) (some (((i : Int) + 1) * size)) =
      part size xs i := by
  have hlow : ((i : Int) + 1 - 1) * size = ((i * size : Nat) : Int) := by
    rw [Int.add_sub_cancel, Int.natCast_mul]
  have hhigh : ((i : Int) + 1) * size = (((i + 1) * size : Nat) : Int) := by
    rw [Int.natCast_mul, Int.natCast_succ]
  unfold Slice.take Slice.bounds part
  rw [hlow, hhigh]
  simp only [Option.map_some, Option.getD_some, bound_natCast]
  rw [Nat.min_comm _ ((i + 1) * size), ← List.take_eq_take_min, Nat.succ_mul, List.drop_take]
  rcases Nat.le_total xs.length (i * size) with hle | hle
  · rw [Nat.min_eq_left hle, List.drop_length, List.drop_eq_nil_of_le hle, List.take_nil,
      List.take_nil]
  · rw [Nat.min_eq_right hle, Nat.add_sub_cancel_left]

end

/-! ## Pages -/

variable {a : Address} {c : Collection} {xs ys zs : List Value} {s t u : State}
  {v prev next : Value} {size i : Nat}

/-- A value tells of a page: the items on it, and the pages before and after it. -/
def TellsOf (r : Store) (v : Value) (ys : List Value) (prev next : Value) : Prop :=
  ∃ d b, v = .ref d ∧
    r.cell? d = some (.dict [(.str "items", .ref b), (.str "prev", prev), (.str "next", next)]) ∧
    r.Lists b ys

theorem TellsOf.unique {r : Store} {prev' next' : Value} (h : TellsOf r v ys prev next)
    (h' : TellsOf r v zs prev' next') : ys = zs ∧ prev = prev' ∧ next = next' := by
  obtain ⟨d, b, rfl, hd, e, hys⟩ := h
  obtain ⟨d', b', hdd, hd', e', hzs⟩ := h'
  cases hdd
  cases hd.symm.trans hd'
  cases hys.cell.symm.trans hzs.cell
  cases hys.list.symm.trans hzs.list
  exact ⟨rfl, rfl, rfl⟩

/-- The number of the page before the one that has a part on it, false before the first. -/
def prevOf (i : Nat) : Value := if i = 0 then .bool false else .int i

/-- The number of the page after the one that has a part on it, false after the last. -/
def nextOf (size : Nat) (xs : List Value) (i : Nat) : Value :=
  if (i + 1) * size < xs.length then .int (i + 2) else .bool false

theorem execute_belowOne {n : Int} (hn : 1 ≤ n) (s : State) :
    (belowOne (.int n)).execute s = (.ok false, s) := by
  have hnot : compare n 1 ≠ .lt := fun h => Int.not_lt.mpr hn (Int.compare_eq_lt.mp h)
  have hholds : Comparison.less.holds (compare n 1) = false := by
    cases hcompare : compare n 1 with
    | lt => exact absurd hcompare hnot
    | eq => rfl
    | gt => rfl
  unfold belowOne
  rw [Action.execute_look]
  show (Except.ok (Comparison.less.holds (compare n 1)), s) = _
  rw [hholds]

/-- The page that has a part on it. -/
theorem paginate_ok (hlists : s.store.Lists a xs) (hsize : 1 ≤ size) (i : Nat) :
    ∃ v t, (paginate a (.int (i + 1)) (.int size)).execute s = (.ok v, t) ∧ s.Extends t ∧
      TellsOf t.store v (part size xs i) (prevOf i) (nextOf size xs i) := by
  obtain ⟨c, hholds⟩ := hlists
  obtain ⟨b, d, t, hderived, ht, hpart, -⟩ := derived_ok hholds.cell (part size xs i)
  have hprev : (if (i : Int) + 1 ≤ 1 then Value.bool false else .int ((i : Int) + 1 - 1)) =
      prevOf i := by
    unfold prevOf
    rw [Int.add_sub_cancel]
    refine if_congr ?_ rfl rfl
    omega
  have hnext : (if ((i : Int) + 1) * size < xs.length then Value.int ((i : Int) + 1 + 1)
      else .bool false) = nextOf size xs i := by
    unfold nextOf
    refine if_congr ?_ (congrArg Value.int (by omega)) rfl
    exact_mod_cast Iff.rfl
  have hpage : ∀ n : Int, whole (.int n) = pure n := fun _ => rfl
  have hmake := t.later_alloc (.dict [(.str "items", .ref b), (.str "prev", prevOf i),
    (.str "next", nextOf size xs i)])
  refine ⟨_, _, ?_, (ht.trans hmake).extends, _, b, rfl, t.store.cell?_alloc _, d,
    hpart.extends hmake.extends⟩
  unfold paginate
  rw [Action.execute_bind_of_ok (execute_read hholds.cell)]
  dsimp only
  rw [pure_bind, Action.execute_bind_of_ok (execute_belowOne (by omega) s),
    if_neg Bool.false_ne_true, Action.execute_bind_of_ok (execute_belowOne (by omega) s),
    if_neg Bool.false_ne_true, hpage, hpage, pure_bind, pure_bind,
    Action.execute_bind_of_ok (execute_itemsOf hholds), take_eq_part,
    Action.execute_bind_of_ok hderived, hprev, hnext]
  rfl

/-! ## From page to page -/

/-- A page that has been visited. -/
structure Page where
  number : Int
  items : List Value
  prev : Value

/-- A walk that starts at a page and goes on with the next one as long as there is one. -/
inductive Walk (a : Address) (size : Nat) : Int → State → List Page → State → Prop where
  | last {n : Int} {s t : State} {v prev : Value} {ys : List Value}
    (hrun : (paginate a (.int n) (.int size)).execute s = (.ok v, t))
    (htells : TellsOf t.store v ys prev (.bool false)) : Walk a size n s [⟨n, ys, prev⟩] t
  | next {n m : Int} {s t u : State} {v prev : Value} {ys : List Value} {ps : List Page}
    (hrun : (paginate a (.int n) (.int size)).execute s = (.ok v, t))
    (htells : TellsOf t.store v ys prev (.int m)) (hrest : Walk a size m t ps u) :
    Walk a size n s (⟨n, ys, prev⟩ :: ps) u

/-- There is only one walk from a page. -/
theorem Walk.unique {n : Int} {ps qs : List Page} (h : Walk a size n s ps t) :
    Walk a size n s qs u → qs = ps ∧ u = t := by
  induction h generalizing qs u with
  | last hrun htells =>
    intro h
    cases h with
    | last hrun' htells' =>
      cases hrun.symm.trans hrun'
      obtain ⟨rfl, rfl, -⟩ := htells.unique htells'
      exact ⟨rfl, rfl⟩
    | next hrun' htells' _ =>
      cases hrun.symm.trans hrun'
      cases (htells.unique htells').2.2
  | next hrun htells _ ih =>
    intro h
    cases h with
    | last hrun' htells' =>
      cases hrun.symm.trans hrun'
      cases (htells.unique htells').2.2
    | next hrun' htells' hrest' =>
      cases hrun.symm.trans hrun'
      obtain ⟨rfl, rfl, hnext⟩ := htells.unique htells'
      cases hnext
      obtain ⟨rfl, rfl⟩ := ih hrest'
      exact ⟨rfl, rfl⟩

/-- The page that has a part on it. -/
def pageOf (size : Nat) (xs : List Value) (i : Nat) : Page := ⟨i + 1, part size xs i, prevOf i⟩

/-- A walk that starts at the page with a part on it visits that and the later ones. -/
theorem walk_from (hlists : s.store.Lists a xs) (hsize : 1 ≤ size) {m : Nat}
    (hcount : i + m + 1 = partCount size xs.length) :
    ∃ t, Walk a size (i + 1) s ((List.range' i (m + 1)).map (pageOf size xs)) t ∧ s.Extends t := by
  induction m generalizing i s with
  | zero =>
    obtain ⟨v, t, hrun, ht, htells⟩ := paginate_ok hlists hsize i
    have hend : nextOf size xs i = .bool false := by
      refine if_neg fun hmore => ?_
      rw [← lt_partCount_iff hsize] at hmore
      omega
    rw [hend] at htells
    exact ⟨t, .last hrun htells, ht⟩
  | succ m ih =>
    obtain ⟨v, t, hrun, ht, htells⟩ := paginate_ok hlists hsize i
    have hmore : nextOf size xs i = .int ((i + 1 : Nat) + 1) := by
      refine if_pos ((lt_partCount_iff hsize).mp ?_)
      omega
    rw [hmore] at htells
    obtain ⟨u, hwalk, hu⟩ := ih (i := i + 1) (hlists.extends ht) (by omega)
    exact ⟨u, .next hrun htells hwalk, ht.trans hu⟩

/-! ## Main statement -/

/-- Chunks are new collections over the parts, one after another. -/
theorem chunk_ok (hlists : s.store.Lists a xs) (hsize : 1 ≤ size) :
    ∃ b d qs t, (chunk a (.int size)).execute s = (.ok (.ref b), t) ∧ s.Later t ∧
      t.store.Holds b d qs ∧ List.Forall₂ (fun ys q => ∃ e, q = .ref e ∧ t.store.Lists e ys)
        ((List.range (partCount size xs.length)).map (part size xs)) qs := by
  obtain ⟨c, hholds⟩ := hlists
  have hpieces : pieces (size : Int).toNat xs.length xs =
      (List.range (partCount size xs.length)).map (part size xs) := by
    rw [Int.toNat_natCast]
    exact pieces_eq hsize xs.length xs (Nat.le_refl _)
  obtain ⟨qs, t, hparts, ht, hqs⟩ := mapM_derived_ok id (fun _ v => v)
    ((List.range (partCount size xs.length)).map (part size xs)) hholds.cell
  simp only [bind_pure, id] at hparts hqs
  obtain ⟨b, d, u, hderived, hu, hchunks, -⟩ := derived_ok (ht.grows.cells a _ hholds.cell) qs
  refine ⟨b, d, qs, u, ?_, ht.trans hu, hchunks,
    hqs.imp fun ys q ⟨e, hq, hys⟩ => ⟨e, hq, hys.extends hu.extends⟩⟩
  unfold chunk
  dsimp only
  rw [if_pos (by omega), Action.execute_bind_of_ok (execute_itemsOf hholds), hpieces,
    Action.execute_bind_of_ok hparts, hderived]

/-- All parts but the last have the size, and the last one has at most as many elements and at least
one. -/
theorem length_parts (hsize : 1 ≤ size) (hne : xs ≠ []) :
    (∀ ys ∈ ((List.range (partCount size xs.length)).map (part size xs)).dropLast,
      ys.length = size) ∧
    ∃ ys, ((List.range (partCount size xs.length)).map (part size xs)).getLast? = some ys ∧
      1 ≤ ys.length ∧ ys.length ≤ size := by
  have hpos : 1 ≤ xs.length := List.length_pos_iff.mpr hne
  obtain ⟨m, hm⟩ : ∃ m, partCount size xs.length = m + 1 := ⟨_, partCount_of_pos hsize hpos⟩
  rw [hm, List.range_succ, List.map_append, List.map_singleton, List.dropLast_concat,
    List.getLast?_concat]
  constructor
  · intro ys hys
    obtain ⟨i, hi, rfl⟩ := List.mem_map.mp hys
    have hmore : (i + 1) * size < xs.length := by
      rw [← lt_partCount_iff hsize, hm]
      exact Nat.succ_lt_succ (List.mem_range.mp hi)
    rw [Nat.succ_mul] at hmore
    rw [length_part]
    omega
  · have hlast : m * size < xs.length := by
      rw [← lt_partCount_iff hsize, hm]
      exact Nat.lt_succ_self m
    refine ⟨_, rfl, ?_⟩
    rw [length_part]
    omega

/-- A collection that is not empty is cut into chunks of one size, the last one shorter where it has
to be. Going through its pages of that size, from the first one to the next as long as there is one,
visits the same items chunk by chunk and comes to an end; each page but the first names the one that
has been visited before it. A page has no next one exactly if that would be empty. -/
theorem walk_visits_chunks (hlists : s.store.Lists a xs) (hne : xs ≠ []) (hsize : 1 ≤ size) :
    ∃ parts : List (List Value),
      parts.length = (xs.length + size - 1) / size ∧ parts.flatten = xs ∧
      (∀ ys ∈ parts.dropLast, ys.length = size) ∧
      (∃ ys, parts.getLast? = some ys ∧ 1 ≤ ys.length ∧ ys.length ≤ size) ∧
      (∃ b d qs t, (chunk a (.int size)).execute s = (.ok (.ref b), t) ∧ s.Extends t ∧
        t.store.Holds b d qs ∧
        List.Forall₂ (fun ys q => ∃ e, q = .ref e ∧ t.store.Lists e ys) parts qs) ∧
      (∃ pages t, Walk a size 1 s pages t ∧ s.Extends t ∧ pages.map Page.items = parts ∧
        (∀ (i : Nat) p q, pages[i]? = some p → pages[i + 1]? = some q → q.prev = .int p.number) ∧
        ∀ pages' t', Walk a size 1 s pages' t' → pages' = pages ∧ t' = t) ∧
      ∀ n : Nat, 1 ≤ n → ∃ v t ys prev next w u zs prev' next',
        (paginate a (.int n) (.int size)).execute s = (.ok v, t) ∧
        TellsOf t.store v ys prev next ∧
        (paginate a (.int (n + 1)) (.int size)).execute s = (.ok w, u) ∧
        TellsOf u.store w zs prev' next' ∧ (next = .bool false ↔ zs = []) := by
  obtain ⟨hfull, hlast⟩ := length_parts hsize hne
  have hpos : 1 ≤ xs.length := List.length_pos_iff.mpr hne
  obtain ⟨b, d, qs, t, hchunk, ht, hchunks⟩ := chunk_ok hlists hsize
  refine ⟨_, ?_, flatten_pieces hsize, hfull, hlast,
    ⟨b, d, qs, t, hchunk, ht.extends, hchunks⟩, ?_, fun n hn => ?_⟩
  · rw [List.length_map, List.length_range]
    rfl
  · obtain ⟨m, hm⟩ : ∃ m, partCount size xs.length = m + 1 := ⟨_, partCount_of_pos hsize hpos⟩
    obtain ⟨t, hwalk, ht⟩ := walk_from (i := 0) (m := m) hlists hsize (by omega)
    rw [← List.range_eq_range', ← hm] at hwalk
    refine ⟨_, t, hwalk, ht, List.map_map, fun i p q hp hq => ?_, fun pages' t' => hwalk.unique⟩
    rw [List.getElem?_map] at hp hq
    obtain ⟨j, hj, rfl⟩ := Option.map_eq_some_iff.mp hp
    obtain ⟨k, hk, rfl⟩ := Option.map_eq_some_iff.mp hq
    obtain ⟨-, rfl⟩ := List.getElem?_eq_some_iff.mp hj
    obtain ⟨-, rfl⟩ := List.getElem?_eq_some_iff.mp hk
    rw [List.getElem_range, List.getElem_range]
    rfl
  · obtain ⟨i, rfl⟩ := Nat.exists_eq_succ_of_ne_zero (Nat.ne_of_gt hn)
    obtain ⟨v, t, hrun, -, htells⟩ := paginate_ok hlists hsize i
    obtain ⟨w, u, hrun', -, htells'⟩ := paginate_ok hlists hsize (i + 1)
    refine ⟨v, t, _, _, _, w, u, _, _, _, hrun, htells, hrun', htells', ?_⟩
    rw [part_eq_nil_iff hsize]
    unfold nextOf
    split
    next hmore => exact ⟨nofun, fun hle => absurd hmore (Nat.not_lt.mpr hle)⟩
    next hend => exact ⟨fun _ => Nat.not_lt.mp hend, fun _ => rfl⟩

/-- A collection of three texts. -/
def threeLetters : State where
  store := { cells := #[
    .policy {},
    .registry {},
    .generator ⟨0⟩,
    .dict [],
    .list [.str "x", .str "y", .str "z"],
    .collection
      { list := ⟨4⟩, validators := ⟨3⟩, policy := ⟨0⟩, registry := ⟨1⟩, generator := ⟨2⟩ }] }

/-- Of three texts two are in the first chunk and on the first page. -/
theorem walk_threeLetters :
    (∃ b d qs t, (chunk ⟨5⟩ (.int 2)).execute threeLetters = (.ok (.ref b), t) ∧
      t.store.Holds b d qs ∧ List.Forall₂ (fun ys q => ∃ e, q = .ref e ∧ t.store.Lists e ys)
        [[.str "x", .str "y"], [.str "z"]] qs) ∧
    ∃ pages t, Walk ⟨5⟩ 2 1 threeLetters pages t ∧
      pages.map Page.items = [[.str "x", .str "y"], [.str "z"]] := by
  have hlists : threeLetters.store.Lists ⟨5⟩ [.str "x", .str "y", .str "z"] := ⟨_, rfl, rfl⟩
  obtain ⟨parts, hcount, hflatten, hfull, ⟨last, hlast, hpos, hle⟩, hchunk, hwalk, -⟩ :=
    walk_visits_chunks hlists (List.cons_ne_nil _ _) (by decide : 1 ≤ 2)
  have hparts : parts = [[.str "x", .str "y"], [.str "z"]] := by
    obtain ⟨p, q, rfl⟩ := List.length_eq_two.mp hcount
    obtain ⟨x, y, rfl⟩ := List.length_eq_two.mp (hfull p List.mem_cons_self)
    rw [List.flatten_cons, List.flatten_cons, List.flatten_nil, List.append_nil] at hflatten
    cases hflatten
    rfl
  rw [hparts] at hchunk hwalk
  obtain ⟨b, d, qs, t, hrun, -, hholds, hqs⟩ := hchunk
  obtain ⟨pages, u, hpages, -, hitems, -⟩ := hwalk
  exact ⟨⟨b, d, qs, t, hrun, hholds, hqs⟩, pages, u, hpages, hitems⟩

end Recordset.Collection
