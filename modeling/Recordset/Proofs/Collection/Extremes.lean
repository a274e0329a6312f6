import Recordset.Proofs.Collection.Comparing
import Recordset.Proofs.Extreme
set_option autoImplicit false

/-!
# Extremes and sorts agree

A collection whose items have numbers, texts or nothing as their keys is sorted, and has a least
and a greatest key, where there are not both numbers and texts among them.  The least key is then
the key of the first item of the sorted copy, and the greatest that of the first item of the copy
sorted downwards.  Where there are both, all of this is refused.

`Collection.extremes_agree_sort` is the main statement.
-/

namespace Recordset.Collection

open Aggregate (Comparable IsExtreme IsFirstBest)

variable {caller : Caller} {a b : Address} {c : Collection} {key : Key} {keyOrFn : Value}
  {d : Direction} {cmp : Comparison} {ps qs : List (Value × Value)} {r : Value} {s t t₀ u : State}

/-! ## Keys that stay the same -/

/-- The items have these keys in every later state, for a sort and for an aggregate, and finding
them is pure. -/
def Assigns (caller : Caller) (key : Key) (ps : List (Value × Value)) (s : State) : Prop :=
  ∀ t, s.Later t → ∀ p ∈ ps, ∃ u, t.Later u ∧ (sortKey caller key p.2).execute t = (.ok p.1, u) ∧
    ∀ i, (key.find caller p.2 i).execute t = (.ok p.1, u)

/-- The keys that an argument asks for: without one the items themselves, otherwise what is found
at a path, or what a callback of one argument gives that is pure. -/
inductive Yields (caller : Caller) (ps : List (Value × Value)) (s : State) : Value → Prop where
  | itself (h : ∀ p ∈ ps, p.1 = p.2) : Yields caller ps s .null
  | path {name : String} (hwhole : s.Whole) (hroot : s.store.Rooted)
    (h : ∀ p ∈ ps, ∃ u, (Path.value p.2 (.str name)).execute s = (.ok p.1, u)) :
    Yields caller ps s (.str name)
  | callback {f : Value} (hcallable : s.store.isCallable f = true)
    (harity : ∀ t, s.Later t → Callback.arity t.store f = 1)
    (h : ∀ t, s.Later t → ∀ p ∈ ps, ∃ u, (caller f [p.2]).execute t = (.ok p.1, u) ∧ t.Later u) :
    Yields caller ps s f

/-- A number, a text, or nothing. -/
def IsKey (v : Value) : Prop := v.isAbsent = true ∨ v.IsNumber ∨ v.IsText

theorem IsKey.exists_measure {v : Value} (h : IsKey v) (hthere : v.isAbsent = false) :
    ∃ m, v.measure? = some m :=
  Value.exists_measure (h.resolve_left (Bool.eq_false_iff.mp hthere))

theorem IsKey.isConstant {v : Value} (h : IsKey v) : v.IsConstant := by
  cases hthere : v.isAbsent with
  | true =>
    cases v with
    | ref | method | extension => cases hthere
    | _ => trivial
  | false =>
    obtain ⟨m, hm⟩ := h.exists_measure hthere
    exact Value.isConstant_of_measure? hm

/-- A callback of one argument is given one, whatever it is offered. -/
theorem execute_call_one {f v : Value} {offered : Nat} {more : List Value}
    (harity : Callback.arity t.store f = 1) (hmore : 1 < offered ∨ more = []) :
    (Callback.call caller f offered (v :: more)).execute t = (caller f [v]).execute t := by
  unfold Callback.call Callback.isNarrow
  rw [Action.execute_get_bind]
  dsimp only
  rw [harity]
  rcases hmore with hmore | rfl
  · rw [if_pos (decide_eq_true hmore)]
    rfl
  · split <;> rfl

theorem Yields.assigns (h : Yields caller ps s keyOrFn) (hlists : s.store.Lists a (ps.map Prod.snd))
    (hkeys : ∀ p ∈ ps, IsKey p.1) : Assigns caller (Key.of s.store keyOrFn) ps s := by
  intro t ht p hp
  cases h with
  | itself h =>
    rw [h p hp]
    exact ⟨t, .refl t, rfl, fun _ => rfl⟩
  | path hwhole hroot h =>
    obtain ⟨c, hholds⟩ := hlists
    have hmade := hwhole.made_of_cell? hholds.list (List.mem_map_of_mem hp)
    obtain ⟨u, hrun⟩ := h p hp
    obtain ⟨w, hfound, hw⟩ := Path.value_later hwhole hroot hmade (hkeys p hp).isConstant hrun ht
    exact ⟨w, hw, hfound, fun _ => hfound⟩
  | callback hcallable harity h =>
    obtain ⟨u, hrun, hu⟩ := h t ht p hp
    have hkey : Key.of s.store keyOrFn = .callback keyOrFn := if_pos hcallable
    rw [hkey]
    exact ⟨u, hu, (execute_call_one (harity t ht) (.inr rfl)).trans hrun,
      fun _ => (execute_call_one (harity t ht) (.inl Nat.one_lt_two)).trans hrun⟩

/-! ## Kinds of keys -/

/-- Keys can be compared when there are not both numbers and texts among them. -/
theorem comparable_iff {vs : List Value} (hkeys : ∀ v ∈ vs, IsKey v) :
    Comparable vs ↔ ¬ ((∃ v ∈ vs, v.IsNumber) ∧ ∃ v ∈ vs, v.IsText) := by
  have hthere : ∀ {v : Value}, v.isAbsent = false → v ∈ vs → v.IsNumber ∨ v.IsText :=
    fun habsent hv => (hkeys _ hv).resolve_left (Bool.eq_false_iff.mp habsent)
  constructor
  · rintro (h | h) ⟨⟨v, hv, n, hn, -⟩, w, hw, x, rfl⟩
    · obtain ⟨m, hm⟩ := h _ hw rfl
      cases hm
    · obtain ⟨y, rfl⟩ := h v hv (Value.isAbsent_of_number? hn)
      cases hn
  · intro hone
    by_cases htext : ∃ v ∈ vs, v.IsText
    · refine .inr fun v hv habsent => (hthere habsent hv).resolve_left fun hnumber => ?_
      exact hone ⟨⟨v, hv, hnumber⟩, htext⟩
    · refine .inl fun v hv habsent => ?_
      obtain ⟨n, hn, -⟩ := (hthere habsent hv).resolve_right fun h => htext ⟨v, hv, h⟩
      exact ⟨n, hn⟩

/-- Where the next key cannot be compared with some that can, it has no order with any of them. -/
theorem unordered_of_not_comparable {vs : List Value} {v : Value} (hkeys : ∀ w ∈ vs, IsKey w)
    (hv : IsKey v) (h : Comparable vs) (hnot : ¬ Comparable (vs ++ [v])) :
    (∃ w ∈ vs, w.isAbsent = false) ∧ ∃ l, v.measure? = some l ∧
      ∀ w ∈ vs, ∀ k, w.measure? = some k → ¬ (l ≤ k ∨ k ≤ l) := by
  have hall : ∀ w ∈ vs ++ [v], IsKey w := by
    intro w hw
    rcases List.mem_append.mp hw with hw | hw
    · exact hkeys w hw
    · rwa [List.mem_singleton.mp hw]
  rw [comparable_iff hkeys] at h
  rw [comparable_iff hall, not_not] at hnot
  obtain ⟨⟨x, hx, hnumber⟩, y, hy, htext⟩ := hnot
  rcases List.mem_append.mp hx with hx' | hx' <;> rcases List.mem_append.mp hy with hy' | hy'
  · exact absurd ⟨⟨x, hx', hnumber⟩, y, hy', htext⟩ h
  · -- The next key is a text, and there are no texts before it.
    obtain rfl := List.mem_singleton.mp hy'
    have hthere : x.isAbsent = false := hnumber.elim fun n hn => Value.isAbsent_of_number? hn.1
    obtain ⟨t, rfl⟩ := htext
    refine ⟨⟨x, hx', hthere⟩, .inr t, rfl, fun w hw k hk => ?_⟩
    rcases Value.cases_of_measure? hk with ⟨m, -, -, rfl⟩ | ⟨t', rfl, -⟩
    · simp
    · exact absurd ⟨⟨x, hx', hnumber⟩, _, hw, t', rfl⟩ h
  · -- The next key is a number, and there are no numbers before it.
    obtain rfl := List.mem_singleton.mp hx'
    have hthere : y.isAbsent = false := htext.elim fun t ht => ht ▸ rfl
    obtain ⟨n, hn, hnan⟩ := hnumber
    refine ⟨⟨y, hy', hthere⟩, _, Value.measure?_number hn hnan, fun w hw k hk => ?_⟩
    rcases Value.cases_of_measure? hk with ⟨m, hm, hmnan, -⟩ | ⟨t', -, rfl⟩
    · exact absurd ⟨⟨w, hw, m, hm, hmnan⟩, y, hy', htext⟩ h
    · simp
  · obtain rfl := List.mem_singleton.mp hx'
    obtain rfl := List.mem_singleton.mp hy'
    obtain ⟨n, hn, -⟩ := hnumber
    obtain ⟨t, rfl⟩ := htext
    cases hn

/-! ## The extreme key -/

/-- The keys of the items below a position. -/
def keysBelow (ps : List (Value × Value)) (i : Nat) : List Value := (ps.take i).map Prod.fst

theorem keysBelow_succ {i : Nat} (hi : i < ps.length) :
    keysBelow ps (i + 1) = keysBelow ps i ++ [ps[i].1] := by
  unfold keysBelow
  rw [List.take_succ_eq_append_getElem hi, List.map_append]
  rfl

theorem keysBelow_length : keysBelow ps ps.length = ps.map Prod.fst := by
  unfold keysBelow
  rw [List.take_length]

theorem mem_keysBelow {i : Nat} {v : Value} (h : v ∈ keysBelow ps i) : v ∈ ps.map Prod.fst :=
  List.map_subset Prod.fst (List.take_subset i ps) h

/-- A key is written in the same way whatever is stored. -/
theorem IsKey.shown_eq (h : IsKey r) (s t : Store) : t.shown r = s.shown r := by
  have hconstant := h.isConstant
  cases r with
  | ref | method | extension => exact hconstant.elim
  | _ => rfl

/-- Where some key is there, the extreme one of the keys is the first of the best. -/
theorem isFirstBest_of_isExtreme {vs : List Value} {w : Value} (h : IsExtreme cmp vs r)
    (hkeys : ∀ v ∈ vs, IsKey v) (hw : w ∈ vs) (hthere : w.isAbsent = false) :
    IsFirstBest cmp vs r := by
  cases h with
  | nothing hnothing =>
    have habsent := Aggregate.first?_eq_none_iff.mp hnothing w hw
    exact absurd (hthere.symm.trans habsent) Bool.false_ne_true
  | nan hfirst hnan =>
    obtain ⟨n, hn, hisNaN⟩ := hnan
    obtain ⟨k, hk⟩ := (hkeys r (List.mem_of_find?_eq_some hfirst)).exists_measure
      (Value.isAbsent_of_number? hn)
    cases (Aggregate.measure?_of_isNaN hn hisNaN).symm.trans hk
  | best _ _ hbest => exact hbest

/-- What a visit does with an item when it looks for an extreme key. -/
def extremeStep (caller : Caller) (key : Key) (cmp : Comparison) (current item : Value) (i : Nat) :
    Action Value := do
  let k ← key.draw caller item i
  Action.look fun s => Aggregate.extreme s cmp current k

theorem execute_extreme (cmp : Comparison) (keyOrFn : Value) :
    (extreme caller cmp a keyOrFn).execute t =
      (fold a .null (extremeStep caller (Key.of t.store keyOrFn) cmp)).execute t := by
  unfold extreme keyOf
  rw [bind_assoc, Action.execute_get_bind, pure_bind]
  rfl

/-- The extreme one of the keys below a position, and then of these and the next one; or it is
refused to compare this one. -/
theorem extremeStep_cases (hassigns : Assigns caller key ps s) (hc : cmp.IsStrict)
    (hkeys : ∀ p ∈ ps, IsKey p.1)
    (hshown : ¬ Comparable (ps.map Prod.fst) → ∀ p ∈ ps, ∃ x, s.store.shown p.1 = .ok x)
    {i : Nat} (hi : i < ps.length) {current : Value} (ht : s.Later t)
    (hcomparable : Comparable (keysBelow ps i))
    (hcurrent : IsExtreme cmp (keysBelow ps i) current) :
    (∃ next u, (extremeStep caller key cmp current ps[i].2 i).execute t = (.ok next, u) ∧
      s.Later u ∧ Comparable (keysBelow ps (i + 1)) ∧
      IsExtreme cmp (keysBelow ps (i + 1)) next) ∨
    ∃ x y u, (extremeStep caller key cmp current ps[i].2 i).execute t =
      (.error (.refusal (.incomparable x y)), u) ∧ ¬ Comparable (keysBelow ps (i + 1)) := by
  have hp : ps[i] ∈ ps := List.getElem_mem hi
  obtain ⟨u, hu, -, hfind⟩ := hassigns t ht ps[i] hp
  have hrun : (extremeStep caller key cmp current ps[i].2 i).execute t =
      (Aggregate.extreme u.store cmp current ps[i].1, u) := by
    unfold extremeStep Key.draw
    rw [Action.execute_bind_of_ok (execute_drawing (hfind i)), Action.execute_look]
  rw [hrun, keysBelow_succ hi]
  by_cases hnext : Comparable (keysBelow ps i ++ [ps[i].1])
  · obtain ⟨next, hstep, hextreme⟩ := hcurrent.extreme_ok (s := u.store) hc hnext
    rw [hstep]
    exact .inl ⟨next, u, rfl, ht.trans hu, hnext, hextreme⟩
  · have hwritten : ∀ p ∈ ps, ∃ x, u.store.shown p.1 = .ok x := by
      intro q hq
      obtain ⟨x, hx⟩ := hshown (fun h => hnext (h.mono fun v hv => mem_keysBelow
        (keysBelow_succ hi ▸ hv))) q hq
      exact ⟨x, ((hkeys q hq).shown_eq s.store u.store).trans hx⟩
    have hbelow : ∀ v ∈ keysBelow ps i, ∃ q ∈ ps, q.1 = v := fun v hv =>
      List.mem_map.mp (mem_keysBelow hv)
    have hkeysBelow : ∀ v ∈ keysBelow ps i, IsKey v := fun v hv => by
      obtain ⟨q, hq, rfl⟩ := hbelow v hv
      exact hkeys q hq
    obtain ⟨⟨w, hw, hthere⟩, l, hl, hunordered⟩ :=
      unordered_of_not_comparable hkeysBelow (hkeys _ hp) hcomparable hnext
    obtain ⟨y, hy⟩ := hwritten _ hp
    have hbest := isFirstBest_of_isExtreme hcurrent hkeysBelow hw hthere
    obtain ⟨k, hk⟩ := hbest.exists_measure
    obtain ⟨q, hq, rfl⟩ := hbelow current hbest.mem
    obtain ⟨x, hx⟩ := hwritten q hq
    refine .inr ⟨x, y, u, ?_, hnext⟩
    rw [Aggregate.extreme_unordered hk hl (hunordered q.1 hbest.mem k hk) hx hy]

/-- The extreme key is found when the keys can be compared, and refused otherwise. -/
theorem extreme_cases (hlists : s.store.Lists a (ps.map Prod.snd))
    (hassigns : Assigns caller (Key.of t₀.store keyOrFn) ps s) (hc : cmp.IsStrict)
    (hkeys : ∀ p ∈ ps, IsKey p.1)
    (hshown : ¬ Comparable (ps.map Prod.fst) → ∀ p ∈ ps, ∃ x, s.store.shown p.1 = .ok x)
    (ht : s.Later t₀) :
    (∃ r u, (extreme caller cmp a keyOrFn).execute t₀ = (.ok r, u) ∧
      Comparable (ps.map Prod.fst) ∧ IsExtreme cmp (ps.map Prod.fst) r) ∨
    ∃ x y u, (extreme caller cmp a keyOrFn).execute t₀ =
      (.error (.refusal (.incomparable x y)), u) ∧ ¬ Comparable (ps.map Prod.fst) := by
  have hstep := fun {i : Nat} (hi : i < (ps.map Prod.snd).length) (current : Value) (t : State)
    (h : s.Later t ∧ Comparable (keysBelow ps i) ∧ IsExtreme cmp (keysBelow ps i) current) =>
    extremeStep_cases hassigns hc hkeys hshown ((List.length_map Prod.snd) ▸ hi) h.1 h.2.1 h.2.2
  have hkeeps : ∀ i (hi : i < (ps.map Prod.snd).length) current t next u,
      (s.Later t ∧ Comparable (keysBelow ps i) ∧ IsExtreme cmp (keysBelow ps i) current) →
      (extremeStep caller (Key.of t₀.store keyOrFn) cmp current (ps.map Prod.snd)[i] i).execute t =
        (.ok next, u) →
      s.Later u ∧ Comparable (keysBelow ps (i + 1)) ∧
        IsExtreme cmp (keysBelow ps (i + 1)) next := by
    intro i hi current t next u hbefore hrun
    rw [List.getElem_map] at hrun
    rcases hstep hi current t hbefore with ⟨next', u', hok, hafter⟩ | ⟨x, y, u', hrefused, -⟩
    · cases hok.symm.trans hrun
      exact hafter
    · cases hrefused.symm.trans hrun
  rw [execute_extreme]
  rcases fold_cases _ (fun i current t h => ⟨_, hlists.extends h.1.grows.extends, rfl, rfl⟩)
    ⟨ht, .inl (by simp [keysBelow]), .nothing rfl⟩ hkeeps rfl with
    ⟨r, hr, -, hcomparable, hextreme⟩ | ⟨i, hi, current, t, e, hbefore, hrun, he⟩
  · rw [List.length_map, keysBelow_length] at hcomparable hextreme
    exact .inl ⟨r, _, Prod.ext hr rfl, hcomparable, hextreme⟩
  · rw [List.getElem_map] at hrun
    rcases hstep hi current t hbefore with ⟨next, u, hok, -⟩ | ⟨x, y, u, hrefused, hnot⟩
    · cases hok.symm.trans hrun
    · cases hrefused.symm.trans hrun
      exact .inr ⟨x, y, _, Prod.ext he rfl, fun h => hnot (h.mono fun v => mem_keysBelow)⟩

/-! ## The sorted copy -/

/-- What comes first in a direction. -/
def toward : Direction → Comparison
  | .asc => .less
  | .desc => .greater

theorem toward_isStrict (d : Direction) : (toward d).IsStrict := by
  cases d with
  | asc => exact .inl rfl
  | desc => exact .inr rfl

theorem before_iff_orders {m n : WithBot (WithTop ℚ) ⊕ String} :
    Before d m n ↔ (toward d).Orders m n := by
  cases d <;> rfl

/-- The best key stands at a position: it comes in front of those before, and none of those after it
comes in front of it. -/
theorem exists_index (h : IsFirstBest cmp (ps.map Prod.fst) r) :
    ∃ (i : Fin ps.length) (l : WithBot (WithTop ℚ) ⊕ String), r = (ps.get i).1 ∧
      (ps.get i).1.measure? = some l ∧
      (∀ j < i, ∀ m, (ps.get j).1.measure? = some m → cmp.Orders l m) ∧
      ∀ j, i < j → ∀ m, (ps.get j).1.measure? = some m → ¬ cmp.Orders m l := by
  obtain ⟨front, back, l, hsplit, hl, hfront, hback⟩ := h
  obtain ⟨before, rest, rfl, rfl, hrest⟩ := List.map_eq_append_iff.mp hsplit
  obtain ⟨p, after, rfl, rfl, rfl⟩ := List.map_eq_cons_iff.mp hrest
  refine ⟨⟨before.length, by simp⟩, l, by simp, by simpa using hl, fun j hj m hm => ?_,
    fun j hj m hm => ?_⟩
  · have hlt : j.1 < before.length := hj
    have hget : (before ++ p :: after).get j = before[j.1] := by
      simp [List.getElem_append_left hlt]
    rw [hget] at hm
    exact hfront _ (List.mem_map_of_mem (List.getElem_mem hlt)) m hm
  · obtain ⟨k, hk⟩ := Nat.exists_eq_add_of_lt (show before.length < j.1 from hj)
    have hlt : k < after.length := by
      have := j.2
      simp at this
      omega
    have hget : (before ++ p :: after).get j = after[k] := by
      simp [List.getElem_append_right, hk, Nat.add_assoc]
    rw [hget] at hm
    exact hback _ (List.mem_map_of_mem (List.getElem_mem hlt)) m hm

/-- The best key is that of the item that precedes all others. -/
theorem head_of_order {order : List (Fin ps.length)}
    (hperm : order.Perm (List.finRange ps.length)) (hpairs : order.Pairwise (Precedes d ps))
    (hbest : IsFirstBest (toward d) (ps.map Prod.fst) r) :
    ∃ i rest, order = i :: rest ∧ (ps.get i).1 = r := by
  obtain ⟨i, l, rfl, hl, hfront, hback⟩ := exists_index hbest
  have hi : i ∈ order := hperm.mem_iff.mpr (List.mem_finRange i)
  cases order with
  | nil => cases hi
  | cons j rest =>
    refine ⟨j, rest, rfl, ?_⟩
    rcases List.mem_cons.mp hi with rfl | hi
    · rfl
    -- An item that precedes the best one has a better key, or an equal one and comes before it.
    · exfalso
      cases List.rel_of_pairwise_cons hpairs hi with
      | @key m n hj hi' h =>
        obtain rfl : n = l := Option.some.inj (hi'.symm.trans hl)
        rw [before_iff_orders] at h
        rcases lt_trichotomy j i with hlt | rfl | hlt
        · exact Comparison.not_orders_self (toward_isStrict d) m
            (Comparison.orders_trans (toward_isStrict d) h (hfront j hlt m hj))
        · obtain rfl : m = n := Option.some.inj (hj.symm.trans hl)
          exact Comparison.not_orders_self (toward_isStrict d) m h
        · exact hback j hlt m hj h
      | @tie m hj hi' h =>
        obtain rfl : m = l := Option.some.inj (hi'.symm.trans hl)
        exact Comparison.not_orders_self (toward_isStrict d) m (hfront j h m hj)
      | missing _ habsent =>
        exact Bool.false_ne_true ((Value.isAbsent_of_measure? hl).symm.trans habsent)
      | absent _ habsent =>
        exact Bool.false_ne_true ((Value.isAbsent_of_measure? hl).symm.trans habsent)

/-- Keys that stay the same are found in a sort. -/
theorem Assigns.finds (h : Assigns caller key ps s) {xs : List Value} :
    ∀ {qs : List (Value × Value)} {t : State}, (∀ q ∈ qs, q ∈ ps) → s.Later t →
      t.store.Lists b xs → ∃ u, Finds caller key b xs qs t u ∧ t.Later u := by
  intro qs
  induction qs with
  | nil => exact fun {t} _ _ _ => ⟨t, .nil t, .refl t⟩
  | cons q qs ih =>
    intro t hqs ht hlists
    obtain ⟨u, hu, hkey, -⟩ := h t ht q (hqs q List.mem_cons_self)
    obtain ⟨w, hrest, hw⟩ := ih (fun p hp => hqs p (List.mem_cons_of_mem q hp)) (ht.trans hu)
      (hlists.extends hu.grows.extends)
    exact ⟨w, .cons hkey (hlists.extends hu.grows.extends) hrest, hu.trans hw⟩

theorem Yields.not_comparator (h : Yields caller ps s keyOrFn) (ht : s.Later t) :
    ¬ (t.store.isCallable keyOrFn = true ∧ 2 ≤ Callback.arity t.store keyOrFn) := by
  rintro ⟨hcallable, htwo⟩
  cases h with
  | itself => cases hcallable
  | path => cases hcallable
  | callback _ harity =>
    rw [harity t ht] at htwo
    omega

theorem Yields.knows (h : Yields caller ps s keyOrFn) : s.store.Knows keyOrFn := by
  cases h with
  | itself => trivial
  | path => trivial
  | callback hcallable => exact Store.knows_of_isCallable hcallable

/-- A sort by keys that stay the same is a sort by key. -/
theorem Yields.asks (h : Yields caller ps s keyOrFn) {direction : Value} (ht : s.Later t)
    (hdirection : Directs t.store b direction d) :
    Asks t.store b keyOrFn direction (Key.of s.store keyOrFn) d :=
  ⟨hdirection, Key.of_later ht h.knows, h.not_comparator ht⟩

/-- Keys that can be compared are all numbers, or all texts, where they are there. -/
theorem kinds_of_comparable (h : Comparable (ps.map Prod.fst)) (hkeys : ∀ p ∈ ps, IsKey p.1) :
    (∀ p ∈ present ps, p.1.IsNumber) ∨ ∀ p ∈ present ps, p.1.IsText := by
  have hthere : ∀ p ∈ present ps, p ∈ ps ∧ p.1.isAbsent = false := by simp [present]
  rcases h with h | h
  · refine .inl fun p hp => ?_
    obtain ⟨hmem, habsent⟩ := hthere p hp
    obtain ⟨n, hn⟩ := h _ (List.mem_map_of_mem hmem) habsent
    refine ((hkeys p hmem).resolve_left (Bool.eq_false_iff.mp habsent)).resolve_right ?_
    rintro ⟨x, hx⟩
    rw [hx] at hn
    cases hn
  · exact .inr fun p hp => h _ (List.mem_map_of_mem (hthere p hp).1) (hthere p hp).2

/-- A sort by keys that can be compared puts the items in order, and by others it is refused. -/
theorem Yields.sort_cases (h : Yields caller ps s keyOrFn)
    (hassigns : Assigns caller (Key.of s.store keyOrFn) ps s) (hkeys : ∀ p ∈ ps, IsKey p.1)
    {direction : Value} (ht : s.Later t) (hdirection : Directs t.store b direction d)
    (hlists : t.store.Lists b (ps.map Prod.snd)) :
    (Comparable (ps.map Prod.fst) → ∃ (order : List (Fin ps.length)) (u : State),
      (sort caller b keyOrFn direction).execute t = (.ok (.ref b), u) ∧
      order.Perm (List.finRange ps.length) ∧ order.Pairwise (Precedes d ps) ∧
      u.store.Lists b ((order.map ps.get).map Prod.snd)) ∧
    (¬ Comparable (ps.map Prod.fst) → ∃ reason u,
      (sort caller b keyOrFn direction).execute t =
        (.error (.refusal (.incomparableKeys reason)), u)) := by
  obtain ⟨u, hfinds, -⟩ := hassigns.finds (fun p hp => hp) ht hlists
  rw [execute_sort (h.asks ht hdirection)]
  refine ⟨fun hcomparable => ?_, fun hnot => ?_⟩
  · obtain ⟨qs, w, hrun, hstable, hsorted, hitems⟩ :=
      sortByKey_ok (d := d) hfinds hlists (kinds_of_comparable hcomparable hkeys)
    obtain ⟨order, hperm, hpairs, horder⟩ := exists_order hstable hsorted
    refine ⟨order, w, ?_, hperm, hpairs, horder ▸ hitems⟩
    rw [Action.execute_bind_of_ok hrun]
    rfl
  · rw [comparable_iff (by simpa using hkeys), not_not] at hnot
    obtain ⟨⟨v, hv, n, hn, -⟩, w, hw, htext⟩ := hnot
    obtain ⟨p, hp, rfl⟩ := List.mem_map.mp hv
    obtain ⟨q, hq, rfl⟩ := List.mem_map.mp hw
    have hpresent : ∀ {p}, p ∈ present ps ↔ p ∈ ps ∧ p.1.isAbsent = false := by simp [present]
    obtain ⟨reason, hrefused⟩ := sortKeyed_error (s := u.store) (d := d)
      (fun p hp => ((hkeys p (hpresent.mp hp).1).resolve_left
        (Bool.eq_false_iff.mp (hpresent.mp hp).2)).imp_left (Exists.imp fun _ hn => hn.1))
      ⟨p, hpresent.mpr ⟨hp, Value.isAbsent_of_number? hn⟩, n, hn⟩
      ⟨q, hpresent.mpr ⟨hq, htext.elim fun t ht => ht ▸ rfl⟩, htext⟩
    exact ⟨reason, u, Action.execute_bind_of_error (sortByKey_error hfinds hlists hrefused)⟩

/-- A copy that is made by a collection's own methods, and is sorted by its own method. -/
theorem execute_sorted (caller : Caller) (keyOrFn : Value) (d : Direction)
    (hholds : t.store.Holds a c (ps.map Prod.snd))
    (hclone : c.fields.lookup Method.clone.name = none)
    (hcollect : c.fields.lookup Method.collect.name = none) :
    ∃ b u, t.Later u ∧ u.store.Lists b (ps.map Prod.snd) ∧
      (sorted caller a keyOrFn d).execute t =
        (sort caller b keyOrFn (.str d.text)).execute u := by
  obtain ⟨b, e, u, hderived, hlater, hthere, hfields, -⟩ := derived_ok hholds.cell (ps.map Prod.snd)
  have hcopy : (through caller a .clone [] (clone caller a)).execute t = (.ok (.ref b), u) := by
    rw [execute_through hholds.cell hclone]
    unfold clone
    rw [execute_through hholds.cell hcollect]
    unfold collect
    dsimp only
    rw [Action.execute_bind_of_ok (execute_itemsOf hholds), hderived]
  refine ⟨b, u, hlater, ⟨e, hthere⟩, ?_⟩
  unfold sorted
  rw [Action.execute_bind_of_ok hcopy, Action.execute_get_bind,
    show u.store.view (.ref b) = some (.collection e) from hthere.cell]
  dsimp only
  rw [execute_through hthere.cell (by rw [hfields]; rfl)]

/-! ## Main statement -/

/-- Extremes and sorts agree.  The items of a collection have numbers, texts or nothing as their
keys, and these stay the same.  Where there are both numbers and texts, a sort is refused, in
either direction, and so are the least and the greatest key when the keys can be written.
Otherwise the collection is sorted, and has a least and a greatest key: null where no key is there,
and else the key of the first item of the copy that is sorted upwards, or downwards, and made and
sorted by the collection's own methods. -/
theorem extremes_agree_sort (hholds : s.store.Holds a c (ps.map Prod.snd))
    (hyields : Yields caller ps s keyOrFn) (hkeys : ∀ p ∈ ps, IsKey p.1) :
    ((∃ p ∈ ps, p.1.IsNumber) ∧ (∃ p ∈ ps, p.1.IsText) →
      (∀ direction d t, s.Later t → Directs t.store a direction d →
        ∃ reason u, (sort caller a keyOrFn direction).execute t =
            (.error (.refusal (.incomparableKeys reason)), u) ∧
          (Refusal.incomparableKeys reason).family = .validation) ∧
      ((∀ p ∈ ps, ∃ x, s.store.shown p.1 = .ok x) → ∀ d t, s.Later t →
        ∃ x y u, (extreme caller (toward d) a keyOrFn).execute t =
            (.error (.refusal (.incomparable x y)), u) ∧
          (Refusal.incomparable x y).family = .validation)) ∧
    (¬ ((∃ p ∈ ps, p.1.IsNumber) ∧ ∃ p ∈ ps, p.1.IsText) →
      (∀ direction d t, s.Later t → Directs t.store a direction d →
        ∃ u, (sort caller a keyOrFn direction).execute t = (.ok (.ref a), u)) ∧
      ∀ d t, s.Later t → ∃ r u, (extreme caller (toward d) a keyOrFn).execute t = (.ok r, u) ∧
        ((∀ p ∈ ps, p.1.isAbsent = true) → r = .null) ∧
        ((∃ p ∈ ps, p.1.isAbsent = false) → c.fields.lookup Method.clone.name = none →
          c.fields.lookup Method.collect.name = none → ∀ t, s.Later t →
            ∃ b u, ∃ p ∈ ps, (sorted caller a keyOrFn d).execute t = (.ok (.ref b), u) ∧
              (first caller b .null).execute u = (.ok p.2, u) ∧ p.1 = r)) := by
  have hlists : s.store.Lists a (ps.map Prod.snd) := ⟨c, hholds⟩
  have hassigns := hyields.assigns hlists hkeys
  have hmixed : ¬ Comparable (ps.map Prod.fst) ↔
      (∃ p ∈ ps, p.1.IsNumber) ∧ ∃ p ∈ ps, p.1.IsText := by
    rw [comparable_iff (by simpa using hkeys), not_not]
    simp
  have hsort := fun {direction : Value} {d t} (ht : s.Later t)
    (hdirection : Directs t.store a direction d) =>
    hyields.sort_cases hassigns hkeys ht hdirection (hlists.extends ht.grows.extends)
  have hextreme := fun (d : Direction) {t : State} (ht : s.Later t) hshown =>
    @extreme_cases caller a keyOrFn (toward d) ps s t hlists
      (Key.of_later ht hyields.knows ▸ hassigns)
      (toward_isStrict d) hkeys hshown ht
  refine ⟨fun hboth => ?_, fun hone => ?_⟩
  · have hnot := hmixed.mpr hboth
    refine ⟨fun direction d t ht hdirection => ?_, fun hshown d t ht => ?_⟩
    · obtain ⟨reason, u, hrefused⟩ := (hsort ht hdirection).2 hnot
      exact ⟨reason, u, hrefused, rfl⟩
    · rcases hextreme d ht fun _ => hshown with ⟨_, _, -, h, -⟩ | ⟨x, y, u, hrefused, -⟩
      · exact absurd h hnot
      · exact ⟨x, y, u, hrefused, rfl⟩
  · have hcomparable := not_not.mp (mt hmixed.mp hone)
    refine ⟨fun direction d t ht hdirection => ?_, fun d t ht => ?_⟩
    · obtain ⟨_, u, hrun, -⟩ := (hsort ht hdirection).1 hcomparable
      exact ⟨u, hrun⟩
    · rcases hextreme d ht fun hnot => absurd hcomparable hnot with
        ⟨r, u, hrun, -, hr⟩ | ⟨_, _, _, -, hnot⟩
      · refine ⟨r, u, hrun, fun habsent => hr.eq_null_iff.mpr (by simpa using habsent),
          fun ⟨q, hq, hthere⟩ hclone hcollect t ht => ?_⟩
        obtain ⟨b, v, hv, hcopy, hsorted⟩ := execute_sorted caller keyOrFn d
          (hholds.extends ht.grows.extends) hclone hcollect
        have hdirection : Directs v.store b (.str d.text) d :=
          .text (by cases d <;> decide +kernel)
        obtain ⟨order, u, hrun', hperm, hpairs, e, hitems⟩ :=
          (hyields.sort_cases hassigns hkeys (ht.trans hv) hdirection hcopy).1 hcomparable
        have hbest := isFirstBest_of_isExtreme hr (by simpa using hkeys) (List.mem_map_of_mem hq)
          hthere
        obtain ⟨i, rest, rfl, hi⟩ := head_of_order hperm hpairs hbest
        exact ⟨b, u, ps.get i, List.get_mem ps i, hsorted.trans hrun', (ends_ok hitems).1, hi⟩
      · exact absurd hcomparable hnot

/-- The least of three numbers is the first of them when they are sorted, and so is that of two by
what they count; of a number and a text there is none, and they are not sorted. -/
theorem extremes_threeNumbers :
    (∃ r u, (extreme apply .less ⟨5⟩ .null).execute threeNumbers = (.ok r, u) ∧
      ∃ b w, ∃ p ∈ [Value.int 5, .int 6, .int 5].map fun v => (v, v),
        (sorted apply ⟨5⟩ .null .asc).execute threeNumbers = (.ok (.ref b), w) ∧
        (first apply b .null).execute w = (.ok p.2, w) ∧ p.1 = r) ∧
    (∃ r u, (extreme apply .greater ⟨5⟩ (.builtin .abs)).execute
        (holding [.int (-2), .int 1] everySecond) = (.ok r, u) ∧
      ∃ b w, ∃ p ∈ [(Value.int 2, Value.int (-2)), (.int 1, .int 1)],
        (sorted apply ⟨5⟩ (.builtin .abs) .desc).execute
          (holding [.int (-2), .int 1] everySecond) = (.ok (.ref b), w) ∧
        (first apply b .null).execute w = (.ok p.2, w) ∧ p.1 = r) ∧
    (∃ reason u, (sort apply ⟨5⟩ .null (.str "DESC")).execute
        (holding [.int 5, .str "a"] everySecond) =
      (.error (.refusal (.incomparableKeys reason)), u)) ∧
    ∃ x y u, (extreme apply .less ⟨5⟩ .null).execute (holding [.int 5, .str "a"] everySecond) =
      (.error (.refusal (.incomparable x y)), u) := by
  have hnumber : ∀ n, IsKey (.int n) := fun n => .inr (.inl ⟨_, rfl, rfl⟩)
  have htexts : ∀ n, ¬ (Value.int n).IsText := by
    rintro n ⟨x, hx⟩
    cases hx
  refine ⟨?_, ?_, ?_⟩
  · have hholds : threeNumbers.store.Holds ⟨5⟩ _
        (([Value.int 5, .int 6, .int 5].map fun v => (v, v)).map Prod.snd) := ⟨rfl, rfl⟩
    obtain ⟨-, hagree⟩ := @extremes_agree_sort apply _ _ _ _ _ hholds (.itself (by simp))
      (by simp [hnumber])
    obtain ⟨-, hextreme⟩ := hagree (by simp [htexts])
    obtain ⟨r, u, hrun, -, hsorted⟩ := hextreme .asc threeNumbers (.refl _)
    exact ⟨r, u, hrun, hsorted ⟨_, List.mem_cons_self, rfl⟩ rfl rfl threeNumbers (.refl _)⟩
  · have hholds : (holding [.int (-2), .int 1] everySecond).store.Holds ⟨5⟩ _
        ([(Value.int 2, Value.int (-2)), (.int 1, .int 1)].map Prod.snd) := ⟨rfl, rfl⟩
    have hyields : Yields apply [(Value.int 2, Value.int (-2)), (.int 1, .int 1)]
        (holding [.int (-2), .int 1] everySecond) (.builtin .abs) := by
      refine .callback rfl (fun _ _ => rfl) fun t _ p hp => ⟨t, ?_, .refl t⟩
      simp only [List.mem_cons, List.not_mem_nil, or_false] at hp
      rcases hp with rfl | rfl <;> rfl
    obtain ⟨-, hagree⟩ := extremes_agree_sort hholds hyields (by simp [hnumber])
    obtain ⟨-, hextreme⟩ := hagree (by simp [htexts])
    obtain ⟨r, u, hrun, -, hsorted⟩ := hextreme .desc _ (.refl _)
    exact ⟨r, u, hrun, hsorted ⟨_, List.mem_cons_self, rfl⟩ rfl rfl _ (.refl _)⟩
  · have hholds : (holding [.int 5, .str "a"] everySecond).store.Holds ⟨5⟩ _
        (([Value.int 5, .str "a"].map fun v => (v, v)).map Prod.snd) := ⟨rfl, rfl⟩
    have hboth : (∃ p ∈ [Value.int 5, .str "a"].map fun v => (v, v), p.1.IsNumber) ∧
        ∃ p ∈ [Value.int 5, .str "a"].map fun v => (v, v), p.1.IsText :=
      ⟨⟨_, List.mem_cons_self, _, rfl, rfl⟩, _, List.mem_cons_of_mem _ List.mem_cons_self, _, rfl⟩
    have hkeys : ∀ p ∈ [Value.int 5, .str "a"].map fun v => (v, v), IsKey p.1 := by
      simp [hnumber, show IsKey (.str "a") from .inr (.inr ⟨_, rfl⟩)]
    obtain ⟨hrefused, -⟩ := @extremes_agree_sort apply _ _ _ _ _ hholds (.itself (by simp)) hkeys
    obtain ⟨hsort, hextreme⟩ := hrefused hboth
    obtain ⟨reason, u, hrun, -⟩ := hsort (.str "DESC") .desc _ (.refl _)
      (.text (by decide +kernel))
    have hshown : ∀ p ∈ [Value.int 5, .str "a"].map fun v => (v, v),
        ∃ x, (holding [.int 5, .str "a"] everySecond).store.shown p.1 = .ok x := by
      have hfive : ∃ x, (holding [.int 5, .str "a"] everySecond).store.shown (.int 5) = .ok x ∧
        x = "5" := by decide +kernel
      intro p hp
      simp only [List.map_cons, List.map_nil, List.mem_cons, List.not_mem_nil, or_false] at hp
      rcases hp with rfl | rfl
      · exact hfive.imp fun _ h => h.1
      · exact ⟨_, rfl⟩
    obtain ⟨x, y, w, hrun', -⟩ := hextreme hshown .asc _ (.refl _)
    exact ⟨⟨reason, u, hrun⟩, x, y, w, hrun'⟩

/-- A collection of one number in whose `clone` a patch has put a function that gives another one,
of another number. -/
def cloned : State where
  store := { cells := #[
    .policy {},
    .registry {},
    .generator ⟨0⟩,
    .dict [],
    .list [.int 1],
    .collection
      { list := ⟨4⟩, validators := ⟨3⟩, policy := ⟨0⟩, registry := ⟨1⟩, generator := ⟨2⟩,
        fields := [("clone", .ref ⟨8⟩)] },
    .list [.int 2],
    .collection
      { list := ⟨6⟩, validators := ⟨3⟩, policy := ⟨0⟩, registry := ⟨1⟩, generator := ⟨2⟩ },
    .function (.closure ⟨0, 0, false⟩ (.lit (.ref ⟨7⟩)) none)] }

/-- A number with too many digits to be written, and a text. -/
def hugeAndText : State :=
  holding [.int (Int.ofNat (Nat.pow 10 Text.digitLimit)), .str "a"] everySecond

/-- The least number is not that of the first item in what a patched `clone` gives.  And a number
that cannot be written is compared with a text: the sort is refused, but what leaves the search for
the least one is no refusal. -/
theorem extremes_cloned_huge :
    (∃ found, ((do
        let least ← extreme apply .less ⟨5⟩ .null
        let sorted ← sorted apply ⟨5⟩ .null .asc
        return (least.index?, ← numbersOf sorted)).execute cloned).1 = .ok found ∧
      found = (some 1, [2])) ∧
    (∃ e, ((sort apply ⟨5⟩ .null (.str "asc")).execute hugeAndText).1 = .error e ∧
      ∃ reason, e = .refusal (.incomparableKeys reason)) ∧
    ∃ e, ((extreme apply .less ⟨5⟩ .null).execute hugeAndText).1 = .error e ∧
      e = .fault .value := by
  refine ⟨by decide +kernel, ?_, by decide +kernel⟩
  let items : List Value := [.int (Int.ofNat (Nat.pow 10 Text.digitLimit)), .str "a"]
  have hlists : hugeAndText.store.Lists ⟨5⟩ ((items.map fun v => (v, v)).map Prod.snd) :=
    holding_lists items everySecond
  have hhuge : (Value.int (Int.ofNat (Nat.pow 10 Text.digitLimit))).IsNumber := ⟨_, rfl, rfl⟩
  have hkeys : ∀ p ∈ items.map fun v => (v, v), IsKey p.1 := by
    simp only [items, List.map_cons, List.map_nil, List.forall_mem_cons]
    exact ⟨.inr (.inl hhuge), .inr (.inr ⟨_, rfl⟩), fun p hp => absurd hp List.not_mem_nil⟩
  have hyields : Yields apply (items.map fun v => (v, v)) hugeAndText .null := .itself (by simp)
  have hnot : ¬ Comparable ((items.map fun v => (v, v)).map Prod.fst) := by
    rw [comparable_iff (by simpa using hkeys), not_not]
    exact ⟨⟨_, List.mem_cons_self, hhuge⟩, _, List.mem_cons_of_mem _ List.mem_cons_self, _, rfl⟩
  have hdirection : Directs hugeAndText.store ⟨5⟩ (.str "asc") .asc := .text (by decide +kernel)
  obtain ⟨reason, u, hrun⟩ := (hyields.sort_cases (hyields.assigns hlists hkeys) hkeys (.refl _)
    hdirection hlists).2 hnot
  exact ⟨_, congrArg Prod.fst hrun, reason, rfl⟩

end Recordset.Collection
