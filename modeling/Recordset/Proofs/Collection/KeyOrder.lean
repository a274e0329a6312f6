import Recordset.Proofs.Collection.Selection
import Recordset.Proofs.Ownership.Confined
import Recordset.Proofs.Query.Testing
import Recordset.Proofs.Sorting.Keys
set_option autoImplicit false

/-!
# Sorting a collection by key

A sort by key finds the keys of the items one after another (`Collection.Finds`), at a path or by a
callback.  When all keys that are there are numbers, or all of them texts, the items with keys come
first in the order of the keys and those without come last; where this leaves two items equal, they
stand as they stood before (`Collection.Precedes`).  When there are numbers and texts among the keys
the sort is refused and the items stay as they are.

`Collection.sort_byKey` is the main statement.
-/

namespace Recordset.Collection

open Sorting

variable {caller : Caller} {a : Address} {xs : List Value} {key : Key} {d : Direction}
  {ps qs : List (Value × Value)} {s t u : State}

/-! ## Finding keys -/

/-- The keys of items are found one after another, and none of this changes what the collection
holds. -/
inductive Finds (caller : Caller) (key : Key) (a : Address) (xs : List Value) :
    List (Value × Value) → State → State → Prop where
  | nil (s : State) : Finds caller key a xs [] s s
  | cons {k v : Value} {ps : List (Value × Value)} {s t u : State}
    (hkey : (sortKey caller key v).execute s = (.ok k, t)) (hlists : t.store.Lists a xs)
    (hrest : Finds caller key a xs ps t u) : Finds caller key a xs ((k, v) :: ps) s u

/-- The items that have keys. -/
def present (ps : List (Value × Value)) : List (Value × Value) := ps.filter (!·.1.isAbsent)

/-- The items that have none. -/
def absent (ps : List (Value × Value)) : List (Value × Value) := ps.filter (·.1.isAbsent)

theorem Finds.lists (h : Finds caller key a xs ps s t) (hlists : s.store.Lists a xs) :
    t.store.Lists a xs := by
  induction h with
  | nil => exact hlists
  | cons _ hnext _ ih => exact ih hnext

/-- Without a path the items are their own keys. -/
theorem finds_itself (hlists : s.store.Lists a xs) : ∀ vs : List Value,
    Finds caller (.path (.str Path.itself)) a xs (vs.map fun v => (v, v)) s s := by
  intro vs
  induction vs with
  | nil => exact .nil s
  | cons v vs ih => exact .cons rfl hlists ih

/-- At a path that does not break keys are found, or found missing. -/
theorem finds_path (p : String) (vs : List Value) : ∀ s : State, s.store.Lists a xs →
    Path.Unbroken s vs (.str p) →
    ∃ ps t, ps.map Prod.snd = vs ∧ Finds caller (.path (.str p)) a xs ps s t := by
  induction vs with
  | nil => exact fun s _ _ => ⟨[], s, rfl, .nil s⟩
  | cons v vs ih =>
    intro s ⟨c, hholds⟩ hunbroken
    obtain ⟨k, t, hrun⟩ := hunbroken.value_ok (.refl s) List.mem_cons_self
    have hextends : s.Extends t := (Path.obeys_value v (.str p)).of_execute hrun
    obtain ⟨ps, u, rfl, hfinds⟩ := ih t ⟨c, hholds.extends hextends⟩ fun w hw x hx =>
      hunbroken.extends hextends w hw x (List.mem_cons_of_mem v hx)
    exact ⟨(k, v) :: ps, u, rfl, .cons hrun ⟨c, hholds.extends hextends⟩ hfinds⟩

/-- What a sort does with an item: it is noted with its key, or apart from the others. -/
def noteKey (caller : Caller) (key : Key) (found : Keyed) (v : Value) : Action Keyed := do
  let k ← sortKey caller key v
  if k.isAbsent then return { found with missing := found.missing ++ [v] }
  else return { found with keyed := found.keyed ++ [(k, v)] }

theorem noteKey_ok {k v : Value} {front : List (Value × Value)}
    (hkey : (sortKey caller key v).execute s = (.ok k, t)) :
    (noteKey caller key ⟨present front, (absent front).map Prod.snd⟩ v).execute s =
      (.ok ⟨present (front ++ [(k, v)]), (absent (front ++ [(k, v)])).map Prod.snd⟩, t) := by
  unfold noteKey present absent
  rw [Action.execute_bind_of_ok hkey]
  cases hk : k.isAbsent with
  | true => simp [hk]
  | false => simp [hk]

/-- A visit that finds keys puts the items with keys apart from the items without. -/
theorem fold_noteKey_ok (hfinds : Finds caller key a (ps.map Prod.snd) ps s u)
    (hlists : s.store.Lists a (ps.map Prod.snd)) :
    (fold a {} fun found v _ => noteKey caller key found v).execute s =
      (.ok ⟨present ps, (absent ps).map Prod.snd⟩, u) := by
  have hvisit : ∃ found t, (fold a {} fun found v _ => noteKey caller key found v).execute s =
      (.ok found, t) ∧ found = ⟨present ps, (absent ps).map Prod.snd⟩ ∧ t = u := by
    refine visit_items_ok
      (fun i found t => ∃ front back, ps = front ++ back ∧ front.length = i ∧
        found = ⟨present front, (absent front).map Prod.snd⟩ ∧
        Finds caller key a (ps.map Prod.snd) back t u ∧ t.store.Lists a (ps.map Prod.snd))
      _ (fun i found t ⟨_, _, _, _, _, _, h⟩ => h) ⟨[], ps, rfl, rfl, rfl, hfinds, hlists⟩ ?_ ?_
    · rintro i hi found t ⟨front, back, hps, rfl, rfl, hback, -⟩
      cases hback with
      | nil => simp [hps] at hi
      | @cons k v rest _ w _ hkey hnext hrest =>
        have hitem : (ps.map Prod.snd)[front.length] = v := by simp [hps]
        refine .inl ⟨_, w, ?_, front ++ [(k, v)], rest, by simp [hps], by simp, rfl, hrest, hnext⟩
        rw [hitem, Action.execute_bind_of_ok (noteKey_ok hkey)]
        rfl
    · rintro found t ⟨front, back, hps, hlength, rfl, hback, -⟩
      obtain rfl : back = [] := by
        have := congrArg List.length hps
        simp at hlength this
        exact List.eq_nil_of_length_eq_zero (by omega)
      cases hback
      rw [hps, List.append_nil]
      exact ⟨rfl, rfl⟩
  obtain ⟨_, _, hrun, rfl, rfl⟩ := hvisit
  exact hrun

/-! ## Sorting by keys that are found -/

/-- A sort by keys that are found sorts the items with keys and puts the others after them. -/
theorem execute_sortByKey (hfinds : Finds caller key a (ps.map Prod.snd) ps s t)
    (hlists : s.store.Lists a (ps.map Prod.snd)) :
    (sortByKey caller a key d).execute s =
      (do
        let sorted ← Action.look fun s => sortKeyed s d (present ps)
        setItems a (sorted.map Prod.snd ++ (absent ps).map Prod.snd)).execute t := by
  show (fold a {} (fun found v _ => noteKey caller key found v) >>= fun found => do
    let sorted ← Action.look fun s => sortKeyed s d found.keyed
    setItems a (sorted.map (·.2) ++ found.missing)).execute s = _
  rw [Action.execute_bind_of_ok (fold_noteKey_ok hfinds hlists)]

theorem sortByKey_ok (hfinds : Finds caller key a (ps.map Prod.snd) ps s t)
    (hlists : s.store.Lists a (ps.map Prod.snd))
    (hkeys : (∀ p ∈ present ps, p.1.IsNumber) ∨ ∀ p ∈ present ps, p.1.IsText) :
    ∃ qs u, (sortByKey caller a key d).execute s = (.ok ⟨⟩, u) ∧
      Stable (keyRanking d) (present ps) qs ∧ (keyRanking d).Sorted qs ∧
      u.store.Lists a ((qs ++ absent ps).map Prod.snd) := by
  obtain ⟨qs, hsorted, hstable, horder⟩ := sortKeyed_ok (s := t.store) (d := d) hkeys
  obtain ⟨c, hholds⟩ := hfinds.lists hlists
  obtain ⟨c', u, hset, hthere⟩ := setItems_ok hholds ((qs ++ absent ps).map Prod.snd)
  refine ⟨qs, u, ?_, hstable, horder, c', hthere⟩
  rw [execute_sortByKey hfinds hlists, Action.execute_bind, Action.execute_look, hsorted]
  dsimp only
  rw [← hset, List.map_append]

theorem sortByKey_error (hfinds : Finds caller key a (ps.map Prod.snd) ps s t)
    (hlists : s.store.Lists a (ps.map Prod.snd)) {e : Error}
    (hrefused : sortKeyed t.store d (present ps) = .error e) :
    (sortByKey caller a key d).execute s = (.error e, t) := by
  rw [execute_sortByKey hfinds hlists, Action.execute_bind, Action.execute_look, hrefused]

/-! ## The order of positions -/

/-- Which of two measures comes first in a direction. -/
def Before (d : Direction) (m n : WithBot (WithTop ℚ) ⊕ String) : Prop :=
  match d with
  | .asc => m < n
  | .desc => n < m

/-- What puts one item in front of another: its key, or where the keys are equal its position; items
without keys come after all others, and among them the position decides. -/
inductive Precedes (d : Direction) (ps : List (Value × Value)) (i j : Fin ps.length) : Prop where
  | key {m n : WithBot (WithTop ℚ) ⊕ String} (hi : (ps.get i).1.measure? = some m)
    (hj : (ps.get j).1.measure? = some n) (h : Before d m n)
  | tie {m : WithBot (WithTop ℚ) ⊕ String} (hi : (ps.get i).1.measure? = some m)
    (hj : (ps.get j).1.measure? = some m) (h : i < j)
  | missing (hi : (ps.get i).1.isAbsent = false) (hj : (ps.get j).1.isAbsent = true)
  | absent (hi : (ps.get i).1.isAbsent = true) (hj : (ps.get j).1.isAbsent = true) (h : i < j)

theorem before_of_keyRanking {p q : Value × Value} (h : (keyRanking d).before p q) :
    ∃ m n, p.1.measure? = some m ∧ q.1.measure? = some n ∧ Before d m n := by
  cases d with
  | asc => exact h
  | desc =>
    obtain ⟨n, m, hn, hm, hlt⟩ := h
    exact ⟨m, n, hm, hn, hlt⟩

theorem fits_of_keyRanking {p q : Value × Value} (h : (keyRanking d).fits p q) :
    ∃ m n, p.1.measure? = some m ∧ q.1.measure? = some n ∧ (Before d m n ∨ m = n) := by
  cases d with
  | asc =>
    obtain ⟨m, n, hm, hn, hle⟩ := h
    exact ⟨m, n, hm, hn, hle.lt_or_eq⟩
  | desc =>
    obtain ⟨n, m, hn, hm, hle⟩ := h
    exact ⟨m, n, hm, hn, hle.lt_or_eq.imp id Eq.symm⟩

/-- What fits does not have to come after. -/
theorem not_before_of_fits {p q : Value × Value} (h : (keyRanking d).fits p q) :
    ¬ (keyRanking d).before q p := by
  intro hbefore
  obtain ⟨m, n, hm, hn, h⟩ := fits_of_keyRanking h
  obtain ⟨n', m', hn', hm', hlt⟩ := before_of_keyRanking hbefore
  obtain rfl : n = n' := Option.some.inj (hn.symm.trans hn')
  obtain rfl : m = m' := Option.some.inj (hm.symm.trans hm')
  cases d with
  | asc =>
    rcases h with h | rfl
    · exact lt_asymm h hlt
    · exact lt_irrefl _ hlt
  | desc =>
    rcases h with h | rfl
    · exact lt_asymm h hlt
    · exact lt_irrefl _ hlt

/-- The positions from which the items come that a sort by keys puts in order. -/
theorem exists_order (hstable : Stable (keyRanking d) (present ps) qs)
    (hsorted : (keyRanking d).Sorted qs) :
    ∃ order : List (Fin ps.length), order.Perm (List.finRange ps.length) ∧
      order.Pairwise (Precedes d ps) ∧ qs ++ absent ps = order.map ps.get := by
  have hfilter : ∀ f : Value × Value → Bool,
      ps.filter f = ((List.finRange ps.length).filter (f ∘ ps.get)).map ps.get := by
    intro f
    rw [← List.filter_map, List.map_get_finRange]
  unfold present at hstable
  rw [hfilter] at hstable
  obtain ⟨front, hfront, rfl⟩ := hstable.exists_map
  have hpositions : (List.finRange ps.length).Pairwise (· < ·) :=
    List.pairwise_lt_finRange ps.length
  have habsent : ∀ j ∈ (List.finRange ps.length).filter ((·.1.isAbsent) ∘ ps.get),
      (ps.get j).1.isAbsent = true := fun j hj => (List.mem_filter.mp hj).2
  have hpresent : ∀ i ∈ front, (ps.get i).1.isAbsent = false := by
    intro i hi
    have hmem := (List.mem_filter.mp (hfront.perm.mem_iff.mpr hi)).2
    simpa using hmem
  refine ⟨front ++ (List.finRange ps.length).filter ((·.1.isAbsent) ∘ ps.get), ?_, ?_, ?_⟩
  · refine (hfront.perm.symm.append_right _).trans (List.perm_append_comm.trans ?_)
    exact List.filter_append_perm ((·.1.isAbsent) ∘ ps.get) _
  · refine List.pairwise_append.mpr ⟨?_, ?_, fun i hi j hj =>
      .missing (hpresent i hi) (habsent j hj)⟩
    · have hfits : front.Pairwise fun i j => (keyRanking d).fits (ps.get i) (ps.get j) :=
        List.pairwise_map.mp hsorted
      refine (hfits.and (hfront.pairwise (hpositions.filter _))).imp ?_
      rintro i j ⟨hij, hlt | hbefore⟩
      · obtain ⟨m, n, hm, hn, h | rfl⟩ := fits_of_keyRanking hij
        · exact .key hm hn h
        · exact .tie hm hn hlt
      · obtain ⟨m, n, hm, hn, h⟩ := before_of_keyRanking hbefore
        exact .key hm hn h
    · exact (hpositions.filter _).imp_of_mem fun hi hj hlt =>
        .absent (habsent _ hi) (habsent _ hj) hlt
  · rw [List.map_append, ← hfilter]
    rfl

/-- Sorting what is in order already leaves it as it is. -/
theorem sortByKey_again (hstable : Stable (keyRanking d) (present ps) qs)
    (hsorted : (keyRanking d).Sorted qs)
    (hkeys : (∀ p ∈ present ps, p.1.IsNumber) ∨ ∀ p ∈ present ps, p.1.IsText)
    (hfinds : Finds caller key a ((qs ++ absent ps).map Prod.snd) (qs ++ absent ps) s t)
    (hlists : s.store.Lists a ((qs ++ absent ps).map Prod.snd)) :
    ∃ u, (sortByKey caller a key d).execute s = (.ok ⟨⟩, u) ∧
      u.store.Lists a ((qs ++ absent ps).map Prod.snd) := by
  have hthere : ∀ p ∈ qs, (!p.1.isAbsent) = true := fun p hp =>
    (List.mem_filter.mp (hstable.perm.mem_iff.mpr hp)).2
  have hpresent : present (qs ++ absent ps) = qs := by
    unfold present absent
    rw [List.filter_append, List.filter_eq_self.mpr hthere, List.filter_filter]
    simp
  have habsent : absent (qs ++ absent ps) = absent ps := by
    unfold absent
    rw [List.filter_append, List.filter_eq_nil_iff.mpr fun p hp => by simpa using hthere p hp,
      List.filter_filter]
    simp
  have hmem : ∀ p ∈ qs, p ∈ present ps := fun p => hstable.perm.mem_iff.mpr
  obtain ⟨qs', u, hrun, hstable', -, hitems⟩ := sortByKey_ok (d := d) hfinds hlists (by
    rw [hpresent]
    exact hkeys.imp (fun h p hp => h p (hmem p hp)) fun h p hp => h p (hmem p hp))
  rw [hpresent] at hstable'
  obtain rfl := hstable'.eq_of_pairwise (hsorted.imp not_before_of_fits)
  rw [habsent] at hitems
  exact ⟨u, hrun, hitems⟩

/-! ## Arguments of a sort -/

/-- The direction of a sort is given in any case of letters, or it is the policy's. -/
inductive Directs (s : Store) (a : Address) : Value → Direction → Prop where
  | text {t : String} {d : Direction} (h : Direction.ofText? (Text.lower t) = some d) :
    Directs s a (.str t) d
  | policy {c : Collection} {p : Policy} (hcell : s.cell? a = some (.collection c))
    (hpolicy : s.cell? c.policy = some (.policy p)) : Directs s a .null p.direction

/-- The arguments of a sort ask for an order by key, and not by a comparator. -/
structure Asks (s : Store) (a : Address) (keyOrCmp direction : Value) (key : Key) (d : Direction) :
    Prop where
  direction : Directs s a direction d
  key : Key.of s keyOrCmp = key
  single : ¬ (s.isCallable keyOrCmp = true ∧ 2 ≤ Callback.arity s keyOrCmp)

variable {keyOrCmp direction : Value}

theorem execute_directionOf (h : Directs s.store a direction d) :
    (directionOf caller a direction).execute s = (.ok d, s) := by
  cases h with
  | text h =>
    unfold directionOf
    dsimp only
    rw [h]
    rfl
  | policy hcell hpolicy =>
    unfold directionOf policyDirection
    dsimp only
    rw [Action.execute_bind_of_ok (execute_read hcell),
      Action.execute_bind_of_ok (Action.execute_cell hpolicy)]
    rfl

theorem execute_sort (h : Asks s.store a keyOrCmp direction key d) :
    (sort caller a keyOrCmp direction).execute s =
      (do sortByKey caller a key d; return .ref a : Action Value).execute s := by
  unfold sort keyOf
  rw [Action.execute_bind_of_ok (execute_directionOf h.direction), Action.execute_get_bind]
  dsimp only
  rw [if_neg h.single, bind_assoc, Action.execute_get_bind, pure_bind, h.key]

/-! ## Main statement -/

/-- A sort by key is stable in both directions, with the items without keys last, when its keys are
found while the collection stays as it is and those that are there are all numbers or all texts.
Sorting again changes nothing when the arguments mean what they meant and each item has the key
that it had.  Without a path, and at a path that does not break, keys are always found.  With
numbers and texts among the keys the sort is refused, and the items are where they were. -/
theorem sort_byKey (hasks : Asks s.store a keyOrCmp direction key d) :
    (∀ t vs, t.store.Lists a vs →
      (keyOrCmp = .null → Finds caller key a vs (vs.map fun v => (v, v)) t t) ∧
      ∀ p, keyOrCmp = .str p → Path.Unbroken t vs (.str p) →
        ∃ ps u, ps.map Prod.snd = vs ∧ Finds caller key a vs ps t u) ∧
    ∀ ps t, s.store.Lists a (ps.map Prod.snd) →
      Finds caller key a (ps.map Prod.snd) ps s t →
      ((∀ p ∈ present ps, p.1.IsNumber) ∨ (∀ p ∈ present ps, p.1.IsText) →
        ∃ (order : List (Fin ps.length)) (u : State),
          (sort caller a keyOrCmp direction).execute s = (.ok (.ref a), u) ∧
          order.Perm (List.finRange ps.length) ∧ order.Pairwise (Precedes d ps) ∧
          u.store.Lists a ((order.map ps.get).map Prod.snd) ∧
          ∀ v, Asks u.store a keyOrCmp direction key d →
            Finds caller key a ((order.map ps.get).map Prod.snd) (order.map ps.get) u v →
            ∃ w, (sort caller a keyOrCmp direction).execute u = (.ok (.ref a), w) ∧
              w.store.Lists a ((order.map ps.get).map Prod.snd)) ∧
      ((∀ p ∈ present ps, (∃ n, p.1.number? = some n) ∨ p.1.IsText) →
        (∃ p ∈ ps, ∃ n, p.1.number? = some n) → (∃ p ∈ ps, p.1.IsText) →
        ∃ reason u, (sort caller a keyOrCmp direction).execute s =
            (.error (.refusal (.incomparableKeys reason)), u) ∧
          (Refusal.incomparableKeys reason).family = .validation ∧
          u.store.Lists a (ps.map Prod.snd)) := by
  refine ⟨fun t vs hlists => ⟨?_, ?_⟩, fun ps t hlists hfinds => ⟨fun hkeys => ?_, ?_⟩⟩
  · rintro rfl
    obtain rfl : _ = key := hasks.key
    exact finds_itself hlists vs
  · rintro p rfl hunbroken
    obtain rfl : _ = key := hasks.key
    exact finds_path p vs t hlists hunbroken
  · obtain ⟨qs, u, hrun, hstable, hsorted, hitems⟩ := sortByKey_ok (d := d) hfinds hlists hkeys
    obtain ⟨order, hperm, hpairs, horder⟩ := exists_order hstable hsorted
    refine ⟨order, u, ?_, hperm, hpairs, horder ▸ hitems, fun v hagain hfound => ?_⟩
    · rw [execute_sort hasks, Action.execute_bind_of_ok hrun]
      rfl
    · rw [← horder] at hfound ⊢
      obtain ⟨w, hrun', hsame⟩ := sortByKey_again hstable hsorted hkeys hfound hitems
      refine ⟨w, ?_, hsame⟩
      rw [execute_sort hagain, Action.execute_bind_of_ok hrun']
      rfl
  · intro hkinds hnumber htext
    have hthere : ∀ {P : Value → Prop}, (∀ v, P v → v.isAbsent = false) →
        (∃ p ∈ ps, P p.1) → ∃ p ∈ present ps, P p.1 := fun hP ⟨p, hp, h⟩ =>
      ⟨p, List.mem_filter.mpr ⟨hp, by rw [hP _ h]; rfl⟩, h⟩
    have hnumbers : ∀ v : Value, (∃ n, v.number? = some n) → v.isAbsent = false :=
      fun v ⟨_, hn⟩ => Value.isAbsent_of_number? hn
    have htexts : ∀ v : Value, v.IsText → v.isAbsent = false := by
      rintro _ ⟨x, rfl⟩
      rfl
    obtain ⟨reason, hrefused⟩ := sortKeyed_error (s := t.store) (d := d) hkinds
      (hthere hnumbers hnumber) (hthere htexts htext)
    refine ⟨reason, t, ?_, rfl, hfinds.lists hlists⟩
    rw [execute_sort hasks, Action.execute_bind_of_error (sortByKey_error hfinds hlists hrefused)]

/-- A collection of items, and a callback. -/
def holding (items : List Value) (f : Function) : State where
  store := { cells := #[
    .policy {},
    .registry {},
    .generator ⟨0⟩,
    .dict [],
    .list items,
    .collection
      { list := ⟨4⟩, validators := ⟨3⟩, policy := ⟨0⟩, registry := ⟨1⟩, generator := ⟨2⟩ },
    .function f] }

theorem holding_lists (items : List Value) (f : Function) :
    (holding items f).store.Lists ⟨5⟩ items := ⟨_, rfl, rfl⟩

/-- Sorting by the items themselves, downwards. -/
theorem asks_itself (s : Store) :
    Asks s ⟨5⟩ .null (.str "DESC") (.path (.str Path.itself)) .desc :=
  ⟨.text (by decide +kernel), rfl, by simp [Store.isCallable, Store.view]⟩

/-- Three numbers and a null are sorted, and sorted again; a number and a text are not. -/
theorem sort_numbersWithNull :
    (∃ (order : List (Fin 4)) (u : State),
      (sort apply ⟨5⟩ .null (.str "DESC")).execute
        (holding [.int 5, .null, .int 6, .int 5] everySecond) = (.ok (.ref ⟨5⟩), u) ∧
      order.Perm (List.finRange 4) ∧
      order.Pairwise (Precedes .desc ([.int 5, .null, .int 6, .int 5].map fun v => (v, v))) ∧
      ∃ ys w, u.store.Lists ⟨5⟩ ys ∧
        (sort apply ⟨5⟩ .null (.str "DESC")).execute u = (.ok (.ref ⟨5⟩), w) ∧
        w.store.Lists ⟨5⟩ ys) ∧
    ∃ reason u, (sort apply ⟨5⟩ .null (.str "DESC")).execute
        (holding [.int 5, .str "a"] everySecond) =
      (.error (.refusal (.incomparableKeys reason)), u) ∧
      u.store.Lists ⟨5⟩ [.int 5, .str "a"] := by
  have hnumber : ∀ n : Int, (Value.int n).IsNumber := fun n => ⟨.int n, rfl, rfl⟩
  constructor
  · let ps : List (Value × Value) := [.int 5, .null, .int 6, .int 5].map fun v => (v, v)
    have hlists := holding_lists [.int 5, .null, .int 6, .int 5] everySecond
    have hkeys : ∀ p ∈ present ps, p.1.IsNumber := by
      simp [ps, present, Value.isAbsent, hnumber]
    have h := @sort_byKey apply _ _ _ _ _ _
      (asks_itself (holding [.int 5, .null, .int 6, .int 5] everySecond).store)
    obtain ⟨order, u, hrun, hperm, hpairs, hitems, hagain⟩ :=
      (h.2 ps _ hlists ((h.1 _ _ hlists).1 rfl)).1 (.inl hkeys)
    have hpair : ∀ i, ps.get i = ((ps.get i).2, (ps.get i).2) := by
      intro i
      obtain ⟨v, -, hv⟩ := List.mem_map.mp (List.get_mem ps i)
      rw [← hv]
    have hfound : order.map ps.get = ((order.map ps.get).map Prod.snd).map fun v => (v, v) := by
      rw [List.map_map, List.map_map]
      exact List.map_congr_left fun i _ => hpair i
    have hfinds := (h.1 u _ hitems).1 rfl
    rw [← hfound] at hfinds
    obtain ⟨w, hrun', hitems'⟩ := hagain u (asks_itself u.store) hfinds
    exact ⟨order, u, hrun, hperm, hpairs, _, w, hitems, hrun', hitems'⟩
  · let ps : List (Value × Value) := [.int 5, .str "a"].map fun v => (v, v)
    have hlists := holding_lists [.int 5, .str "a"] everySecond
    have h := @sort_byKey apply _ _ _ _ _ _
      (asks_itself (holding [.int 5, .str "a"] everySecond).store)
    obtain ⟨reason, u, hrun, -, hitems⟩ := (h.2 ps _ hlists ((h.1 _ _ hlists).1 rfl)).2
      (by simp [ps, present, Value.isAbsent, Value.number?, Value.IsText])
      ⟨_, List.mem_cons_self, .int 5, rfl⟩
      ⟨_, List.mem_cons_of_mem _ List.mem_cons_self, "a", rfl⟩
    exact ⟨reason, u, hrun, hitems⟩

/-- A key that takes the last item away: the receiver is then no rearrangement of its items. -/
def popping : Function :=
  .closure ⟨1, 0, false⟩ (.seq [.call (.lit (.ref ⟨5⟩)) "pop" [], .arg 0]) none

/-- A key that depends on where the first item is: an item times the first one. -/
def timesFirst : Function :=
  .closure ⟨1, 0, false⟩
    (.binary .mul (.arg 0) (.item (.lit (.ref ⟨5⟩)) (.lit (.int 0)))) none

/-- A key that takes items away from the receiver leaves it without them, and by a key that depends
on the order of the items, sorting again brings them into another order. -/
theorem sort_popping_timesFirst :
    (∃ items, ((do
        let sorted ← sort apply ⟨5⟩ (.ref ⟨6⟩) (.str "asc")
        numbersOf sorted).execute (holding [.int 3, .int 1, .int 2] popping)).1 = .ok items ∧
      items = [1, 3]) ∧
    ∃ items, ((do
        let once ← numbersOf (← sort apply ⟨5⟩ (.ref ⟨6⟩) (.str "asc"))
        let again ← numbersOf (← sort apply ⟨5⟩ (.ref ⟨6⟩) (.str "asc"))
        return (once, again)).execute (holding [.int 1, .int (-1)] timesFirst)).1 = .ok items ∧
      items = ([-1, 1], [1, -1]) := by
  decide +kernel

end Recordset.Collection
