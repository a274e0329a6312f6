import Recordset.Proofs.Collection.Paging
import Recordset.Proofs.Collection.Selection
import Recordset.Proofs.Ownership.Confined
set_option autoImplicit false

/-!
# Splices

A splice takes items out of a collection and puts others in their place.  Where it starts and how
many items it takes out are whole numbers, which are brought within the items: a start below zero
counts from the end, and a count below zero takes nothing out.  So the items fall into three parts,
of which the middle one is replaced and given back; another splice that starts at the same place
puts it back.

`Collection.splice_undone` is the main statement.
-/

namespace Recordset.Collection

open Recordset.Action

/-! ## Whole numbers as arguments -/

section

variable {v w : Value} {i j : Int} {s : State}

theorem number?_of_index? (h : v.index? = some i) : v.number? = some (.int i) := by
  cases v with
  | bool b => cases h; rfl
  | int n => cases h; rfl
  | _ => cases h

theorem compare_of_index? (hv : v.index? = some i) (hw : w.index? = some j) (s : Store)
    (op : Comparison) : s.compare op v w = .ok (op.holds (compare i j)) := by
  unfold Store.compare Store.depth Store.compareAt
  rw [number?_of_index? hv, number?_of_index? hw]
  rfl

theorem holds_less : Comparison.less.holds (compare i j) = decide (i < j) := by
  rcases Int.lt_trichotomy i j with h | rfl | h
  · rw [Int.compare_eq_lt.mpr h, decide_eq_true h]
    rfl
  · rw [Int.compare_eq_eq.mpr rfl, decide_eq_false (Int.lt_irrefl i)]
    rfl
  · rw [Int.compare_eq_gt.mpr h, decide_eq_false (by omega)]
    rfl

theorem holds_greater : Comparison.greater.holds (compare i j) = decide (j < i) := by
  rcases Int.lt_trichotomy i j with h | rfl | h
  · rw [Int.compare_eq_lt.mpr h, decide_eq_false (by omega)]
    rfl
  · rw [Int.compare_eq_eq.mpr rfl, decide_eq_false (Int.lt_irrefl i)]
    rfl
  · rw [Int.compare_eq_gt.mpr h, decide_eq_true h]
    rfl

theorem atLeast_ok (h : v.index? = some i) (bound : Int) (s : State) :
    ∃ w, (atLeast bound v).execute s = (.ok w, s) ∧ w.index? = some (max bound i) := by
  unfold atLeast
  rw [execute_bind, execute_look, compare_of_index? rfl h, holds_greater]
  by_cases hlt : i < bound
  · exact ⟨.int bound, by simp [hlt], by rw [Int.max_eq_left (Int.le_of_lt hlt)]; rfl⟩
  · exact ⟨v, by simp [hlt], by rw [Int.max_eq_right (Int.not_lt.mp hlt)]; exact h⟩

theorem atMost_ok (h : v.index? = some i) (bound : Int) (s : State) :
    ∃ w, (atMost bound v).execute s = (.ok w, s) ∧ w.index? = some (min bound i) := by
  unfold atMost
  rw [execute_bind, execute_look, compare_of_index? rfl h, holds_less]
  by_cases hlt : bound < i
  · exact ⟨.int bound, by simp [hlt], by rw [Int.min_eq_left (Int.le_of_lt hlt)]; rfl⟩
  · exact ⟨v, by simp [hlt], by rw [Int.min_eq_right (Int.not_lt.mp hlt)]; exact h⟩

theorem execute_add (hv : v.index? = some i) (hw : w.index? = some j) :
    (binary .add v w).execute s = (.ok (.int (i + j)), s) := by
  unfold binary
  dsimp only
  rw [number?_of_index? hv, number?_of_index? hw]
  rfl

end

/-! ## Where a splice cuts -/

/-- A value asks for so many items to be taken out, or for all the rest. -/
inductive AsksFor : Value → Option Int → Prop where
  | rest : AsksFor .null none
  | count {v : Value} {k : Int} (h : v.index? = some k) : AsksFor v (some k)

/-- The place in a list of `n` where a splice starts: counted from the end when it is negative, and
within the list. -/
def spliceFrom (n : Nat) (start : Int) : Int :=
  if start < 0 then max (n + start) 0 else min start n

/-- How many of the items from a place on a splice takes out: none for a negative count, and all of
them without one. -/
def spliceCount (n : Nat) (low : Int) : Option Int → Int
  | none => n - low
  | some k => min (max k 0) (n - low)

variable {a : Address} {c : Collection} {xs : List Value} {start count : Value} {i : Int}
  {k : Option Int} {s : State}

theorem spliceStart_ok (h : start.index? = some i) (n : Nat) (s : State) :
    ∃ w, (spliceStart n start).execute s = (.ok w, s) ∧ w.index? = some (spliceFrom n i) := by
  unfold spliceStart spliceFrom
  rw [execute_bind, execute_look, compare_of_index? h rfl, holds_less]
  by_cases hneg : i < 0
  · obtain ⟨v, hrun, hv⟩ := atLeast_ok (v := .int (n + i)) rfl 0 s
    obtain ⟨w, hlast, hw⟩ := atMost_ok hv n s
    refine ⟨w, ?_, ?_⟩
    · simp only [decide_eq_true hneg, if_true]
      rw [execute_bind_of_ok (execute_add rfl h), execute_bind_of_ok hrun]
      exact hlast
    · rw [hw, if_pos hneg]
      congr 1
      omega
  · obtain ⟨w, hlast, hw⟩ := atMost_ok h n s
    refine ⟨w, ?_, ?_⟩
    · simp only [decide_eq_false hneg, Bool.false_eq_true, if_false, pure_bind]
      exact hlast
    · rw [hw, if_neg hneg, Int.min_comm]

theorem spliceEnd_ok (hstart : start.index? = some i) (hcount : AsksFor count k) (n : Nat)
    (s : State) :
    ∃ w j, (spliceEnd n start count).execute s = (.ok w, s) ∧ w.index? = some j ∧
      min j n - i = spliceCount n i k := by
  cases hcount with
  | rest =>
    refine ⟨.int n, n, rfl, rfl, ?_⟩
    simp only [spliceCount]
    omega
  | @count v k h =>
    obtain ⟨w, hrun, hw⟩ := atLeast_ok h 0 s
    refine ⟨.int (i + max 0 k), i + max 0 k, ?_, rfl, ?_⟩
    · unfold spliceEnd
      split
      · cases h
      · rw [execute_bind_of_ok hrun, execute_add hstart hw]
    · simp only [spliceCount]
      omega

/-- The start lies within the list. -/
theorem spliceFrom_bounds (n : Nat) (i : Int) : 0 ≤ spliceFrom n i ∧ spliceFrom n i ≤ n := by
  unfold spliceFrom
  split <;> omega

/-- So many items are there from the start on. -/
theorem spliceCount_bounds {n : Nat} {low : Int} (h : low ≤ n) (k : Option Int) :
    0 ≤ spliceCount n low k ∧ low + spliceCount n low k ≤ n := by
  cases k with
  | none =>
    simp only [spliceCount]
    omega
  | some k =>
    simp only [spliceCount]
    omega

/-- Two places within a list part it in three. -/
theorem parts_of_bounds {low high : Int} (hlow : 0 ≤ low) (hle : low ≤ min high xs.length) :
    ∃ front cut back, xs = front ++ cut ++ back ∧ (front.length : Int) = low ∧
      (cut.length : Int) = min high xs.length - low ∧
      Slice.take xs (some low) (some high) = cut ∧
      ∀ new, Slice.splice xs (some low) (some high) new = front ++ new ++ back := by
  obtain ⟨p, rfl⟩ := Int.eq_ofNat_of_zero_le hlow
  obtain ⟨q, hq⟩ := Int.eq_ofNat_of_zero_le (Int.le_trans hlow hle)
  have hpq : p ≤ q := by omega
  have hqn : q ≤ xs.length := by omega
  have hbounds : Slice.bounds xs.length (some (p : Int)) (some high) = (p, q) := by
    simp only [Slice.bounds, Slice.bound, Slice.clamp, Option.map_some, Option.getD_some]
    refine Prod.ext ?_ ?_ <;> dsimp only <;> omega
  refine ⟨xs.take p, (xs.take q).drop p, xs.drop q, ?_, ?_, ?_, ?_, fun new => ?_⟩
  · have hfront : xs.take p = (xs.take q).take p := by rw [List.take_take, Nat.min_eq_left hpq]
    rw [hfront, List.take_append_drop, List.take_append_drop]
  · rw [List.length_take]
    omega
  · rw [List.length_drop, List.length_take, hq]
    omega
  · simp only [Slice.take, hbounds]
  · simp only [Slice.splice, hbounds, Nat.max_eq_right hpq]

/-- A splice gives the middle part as a collection of its own and leaves the new items in its place;
nothing else changes. -/
theorem splice_ok (hlists : s.store.Lists a xs) (hstart : start.index? = some i)
    (hcount : AsksFor count k) (new : List Value) :
    ∃ front cut back, xs = front ++ cut ++ back ∧
      (front.length : Int) = spliceFrom xs.length i ∧
      (cut.length : Int) = spliceCount xs.length front.length k ∧
      ∃ b t, (splice a start count new).execute s = (.ok (.ref b), t) ∧ s.store.size ≤ b.index ∧
        t.store.Lists b cut ∧ t.store.Lists a (front ++ new ++ back) ∧ s.Spares a t := by
  obtain ⟨c, hholds⟩ := hlists
  obtain ⟨v, hlow, hv⟩ := spliceStart_ok hstart xs.length s
  obtain ⟨w, high, hhigh, hw, hcut⟩ := spliceEnd_ok hv hcount xs.length s
  have hfrom := spliceFrom_bounds xs.length i
  have hsome := spliceCount_bounds hfrom.2 k
  obtain ⟨front, cut, back, hxs, hfront, hlength, htake, hsplice⟩ :=
    parts_of_bounds hfrom.1 (by omega : spliceFrom xs.length i ≤ min high xs.length)
  have hbound : ∀ {u : Value} {j : Int}, u.index? = some j → sliceBound u = .ok (some j) := by
    intro u j hu
    unfold sliceBound
    split
    · cases hu
    · rw [hu]
  refine ⟨front, cut, back, hxs, hfront, by rw [hlength, hfront, hcut], ?_⟩
  obtain ⟨d, t, hset, hleft⟩ := setItems_ok hholds (front ++ new ++ back)
  obtain ⟨b, e, u, hderived, hu, hb, -, hfresh⟩ := derived_ok hleft.cell cut
  have hrun : (splice a start count new).execute s = (.ok (.ref b), u) := by
    unfold splice
    rw [execute_bind_of_ok (execute_itemsOf hholds), execute_bind_of_ok hlow,
      execute_bind_of_ok hhigh, hbound hv, hbound hw]
    dsimp only [Action.ofExcept]
    rw [pure_bind, pure_bind, hsplice, htake, execute_bind_of_ok hset, hderived]
  have hchange : s.Confined a u := (obeys_splice start count new).of_execute hrun
  have hsize : s.store.size ≤ t.store.size :=
    (((obeys_setItems _).of_execute hset : s.Confined a t)).respects.evolves.size_le
  exact ⟨b, u, hrun, Nat.le_trans hsize hfresh, ⟨e, hb⟩, ⟨d, hleft.extends hu.extends⟩,
    hchange.spares hholds.cell⟩

/-! ## Main statement -/

/-- A splice parts the items in three, of which the first ends where the splice starts and the
second is as long as the number of items that it takes out.  It gives the second part and leaves
new items in its place; and a splice of as many items from the same place on puts the second part
back and gives the new items.  Either one changes no other cell. -/
theorem splice_undone (hlists : s.store.Lists a xs) (hstart : start.index? = some i)
    (hcount : AsksFor count k) (new : List Value) :
    ∃ front cut back, xs = front ++ cut ++ back ∧
      (front.length : Int) = spliceFrom xs.length i ∧
      (cut.length : Int) = spliceCount xs.length front.length k ∧
      ∃ b t, (splice a start count new).execute s = (.ok (.ref b), t) ∧ s.store.size ≤ b.index ∧
        t.store.Lists b cut ∧ t.store.Lists a (front ++ new ++ back) ∧ s.Spares a t ∧
        ∃ d u, (splice a (.int front.length) (.int new.length) cut).execute t =
            (.ok (.ref d), u) ∧ t.store.size ≤ d.index ∧
          u.store.Lists d new ∧ u.store.Lists a xs ∧ t.Spares a u := by
  obtain ⟨front, cut, back, hxs, hfront, hcut, b, t, hrun, hfresh, hb, hleft, hspares⟩ :=
    splice_ok hlists hstart hcount new
  refine ⟨front, cut, back, hxs, hfront, hcut, b, t, hrun, hfresh, hb, hleft, hspares, ?_⟩
  obtain ⟨front', cut', back', hparts, hfront', hcut', d, u, hback, hlater, hd, hlast, hchange⟩ :=
    splice_ok hleft (rfl : (Value.int front.length).index? = some front.length)
      (.count (v := .int new.length) rfl) cut
  have hlength : front'.length = front.length := by
    simp only [spliceFrom, List.length_append] at hfront'
    omega
  have hmiddle : cut'.length = new.length := by
    simp only [spliceCount, List.length_append] at hcut'
    omega
  rw [List.append_assoc, List.append_assoc] at hparts
  obtain ⟨rfl, hrest⟩ := List.append_inj hparts hlength.symm
  obtain ⟨rfl, rfl⟩ := List.append_inj hrest hmiddle.symm
  rw [← hxs] at hlast
  exact ⟨d, u, hback, hlater, hd, hlast, hchange⟩

/-- Of three texts the last two are replaced by null, and put back. -/
theorem splice_threeLetters :
    ∃ b t, (splice ⟨5⟩ (.int (-2)) (.int 9) [.null]).execute threeLetters = (.ok (.ref b), t) ∧
      t.store.Lists b [.str "y", .str "z"] ∧ t.store.Lists ⟨5⟩ [.str "x", .null] ∧
      ∃ d u, (splice ⟨5⟩ (.int 1) (.int 1) [.str "y", .str "z"]).execute t = (.ok (.ref d), u) ∧
        u.store.Lists d [.null] ∧ u.store.Lists ⟨5⟩ [.str "x", .str "y", .str "z"] := by
  have hlists : threeLetters.store.Lists ⟨5⟩ [.str "x", .str "y", .str "z"] := ⟨_, rfl, rfl⟩
  obtain ⟨front, cut, back, hxs, hfront, hcut, b, t, hrun, -, hb, hleft, -, d, u, hback, -, hd,
    hlast, -⟩ := splice_undone hlists (rfl : (Value.int (-2)).index? = some (-2))
      (.count (v := .int 9) rfl) [.null]
  have hone : front.length = 1 := by
    simp only [spliceFrom, List.length_cons, List.length_nil] at hfront
    omega
  have htwo : cut.length = 2 := by
    simp only [spliceCount, List.length_cons, List.length_nil] at hcut
    omega
  obtain ⟨x, rfl⟩ := List.length_eq_one_iff.mp hone
  obtain ⟨y, z, rfl⟩ := List.length_eq_two.mp htwo
  cases hxs
  exact ⟨b, t, hrun, hb, hleft, d, u, hback, hd, hlast⟩

end Recordset.Collection
