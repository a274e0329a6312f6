import Recordset.Proofs.Keyed
import Recordset.Proofs.Path.Remainder
set_option autoImplicit false

/-!
# Forgetting the same fields

Forgetting fields leaves of every item what is left of it without the set of their paths.  In what
order the paths come, how often and in which lists makes no difference, as all that is left of one
value without one set of paths is equal (`Path.Remainder.sameOr`).

`Collection.forget_sameFields` is the main statement.
-/

namespace Recordset

/-! ## What is left is equal -/

namespace Path

variable {s t u : State} {P : Finset (List String)} {v x y : Value} {bound more : Nat}
  {es fs gs : Entries}

/-- Mappings with the same keys, which are some of those of a mapping, are equal when what stands in
them under the same text is equal and all else is the same. -/
theorem entriesEqual_of_kept {fuel : Nat} (hclosed : s.store.Closed) (hkeyed : s.store.Keyed)
    (hu : s.KeepsMappings u) (hes : s.store.entries? v = some es)
    (hfs : fs.map (·.1) = (es.map (·.1)).filter fun key => !drops P key)
    (hgs : gs.map (·.1) = (es.map (·.1)).filter fun key => !drops P key)
    (hothers : fs.others = gs.others)
    (hunder : ∀ name x y, fs.under name = some x → gs.under name = some y →
      Store.sameOr (u.store.equalAt fuel) y x = .ok true) :
    Store.entriesEqual (u.store.equalAt fuel) fs gs = .ok true := by
  have hapart : ∀ (hs : Entries) (more : Nat),
      hs.map (·.1) = (es.map (·.1)).filter (fun key => !drops P key) →
      (hs.map (·.1)).Pairwise fun k l =>
        Store.succeeds (Store.sameOr (u.store.equalAt more) k l) = false := by
    intro hs more hhs
    rw [hhs]
    exact (hu.apart hclosed hkeyed hes more).filter _
  refine Store.entriesEqual_of_keys (hfs.trans hgs.symm) (hapart gs fuel hgs) ?_
  intro key x y hx hy
  have hfound : ∀ z, (key, z) ∈ gs → Store.findBy u.store.equal gs key = some z := fun z hz =>
    Store.findBy_of_mem (hapart gs _ hgs) hz
  cases htext : key.str? with
  | none =>
    have hstays : (key, x) ∈ fs.others := List.mem_filter.mpr ⟨hx, by rw [htext]; rfl⟩
    rw [hothers] at hstays
    obtain rfl : x = y :=
      Option.some.inj ((hfound x (List.mem_filter.mp hstays).1).symm.trans (hfound y hy))
    exact Store.sameOr_of_same (Value.same_refl x)
  | some name =>
    obtain rfl : key = .str name := by
      cases key <;> cases htext
      rfl
    refine hunder name x y ?_ ?_
    · rw [← Entries.find?_str u.store]
      exact Store.findBy_of_mem (hapart fs _ hfs) hx
    · rw [← Entries.find?_str u.store]
      exact hfound y hy

/-- What is left of a value without some paths is equal to all that is left of it without them. -/
theorem Remainder.sameOr (hclosed : s.store.Closed) (hkeyed : s.store.Keyed)
    (hu : s.KeepsMappings u) (h : Remainder s.store u.store bound P v x) :
    ∀ {more fuel : Nat} {y : Value}, Remainder s.store u.store more P v y → bound ≤ fuel →
      Store.sameOr (u.store.equalAt fuel) x y = .ok true ∧
        Store.sameOr (u.store.equalAt fuel) y x = .ok true := by
  induction h with
  | @same _ _ v huntouched =>
    intro more fuel y hy _
    cases hy with
    | same =>
      have hsame : Store.sameOr (u.store.equalAt fuel) v v = .ok true :=
        Store.sameOr_of_same (Value.same_refl v)
      exact ⟨hsame, hsame⟩
    | copy hes htouched => exact absurd htouched (huntouched _ hes)
  | @copy _ P v es fs a hes htouched ha hcopy hkeys hothers _ ih =>
    intro more fuel y hy hfuel
    cases hy with
    | same huntouched => exact absurd htouched (huntouched _ hes)
    | @copy _ _ _ es' gs b hes' _ hb hcopy' hkeys' hothers' hunder' =>
      cases hes.symm.trans hes'
      obtain ⟨fuel, rfl⟩ : ∃ m, fuel = m + 1 := ⟨fuel - 1, by omega⟩
      have hvalues : ∀ name x y, fs.under name = some x → gs.under name = some y →
          Store.sameOr (u.store.equalAt fuel) x y = .ok true ∧
            Store.sameOr (u.store.equalAt fuel) y x = .ok true := by
        intro name x y hx hy
        have hthere : .str name ∈ fs.map (·.1) :=
          Entries.isSome_under.mp (Option.isSome_of_eq_some hx)
        rw [hkeys] at hthere
        obtain ⟨w, hw⟩ := Option.isSome_iff_exists.mp
          (Entries.isSome_under.mpr (List.mem_filter.mp hthere).1)
        exact ih name w x hw hx (hunder' name w y hw hy) (by omega)
      have hequal : ∀ {c d : Address} {hs ks : Entries}, u.store.view (.ref c) = some (.dict hs) →
          u.store.view (.ref d) = some (.dict ks) →
          Store.entriesEqual (u.store.equalAt fuel) hs ks = .ok true →
          Store.sameOr (u.store.equalAt (fuel + 1)) (.ref c) (.ref d) = .ok true := by
        intro c d hs ks hc hd hentries
        refine Store.sameOr_of_eq ?_
        rw [Store.equalAt_of_view hc hd]
        exact hentries
      exact ⟨hequal hcopy hcopy' (entriesEqual_of_kept hclosed hkeyed hu hes hkeys hkeys'
          (hothers.trans hothers'.symm) fun name x y hx hy => (hvalues name x y hx hy).2),
        hequal hcopy' hcopy (entriesEqual_of_kept hclosed hkeyed hu hes hkeys' hkeys
          (hothers'.trans hothers.symm) fun name y x hy hx => (hvalues name x y hx hy).1)⟩

end Path

namespace Collection

variable {s t u : State} {a : Address} {c : Collection} {xs : List Value}

/-- The names that some paths go through. -/
def routes (paths : List String) : Finset (List String) := (paths.map Path.route).toFinset

/-- Lists of the same paths go through the same names. -/
theorem routes_congr {paths others : List String} (h : ∀ p, p ∈ paths ↔ p ∈ others) :
    routes paths = routes others := by
  ext names
  simp [routes, h]

/-- Dropping fields one after another leaves what is left without all of their paths. -/
theorem withoutAll_ok (hclosed : s.store.Closed) (paths : List String) :
    ∀ {P : Finset (List String)} {v w : Value} {bound : Nat} {t : State}, s.store.Knows v →
      s.KeepsMappings t → bound ≤ t.store.size →
      Path.Remainder s.store t.store bound P v w →
      ∃ y u, (withoutAll (paths.map .str) w).execute t = (.ok y, u) ∧ t.Grows u ∧
        Path.Remainder s.store u.store u.store.size (P ∪ routes paths) v y := by
  induction paths with
  | nil =>
    intro P v w bound t _ _ hbound h
    refine ⟨w, t, rfl, .refl t, ?_⟩
    rw [show routes [] = ∅ from rfl, Finset.union_empty]
    exact h.raise hbound
  | cons path paths ih =>
    intro P v w bound t hv ht hbound h
    obtain ⟨x, u, hrun, hu, hx⟩ := h.withoutAt hclosed (Path.route path) hv ht hbound
    rw [← Path.without_eq_withoutAt] at hrun
    obtain ⟨y, u', hrest, hu', hy⟩ :=
      ih hv (ht.trans hu.grows.keepsMappings) (Nat.le_refl _) hx
    refine ⟨y, u', (execute_withoutAll_cons hrun).trans hrest, hu.grows.trans hu', ?_⟩
    have hroutes : P ∪ routes (path :: paths) = insert (Path.route path) P ∪ routes paths := by
      simp [routes, Finset.insert_union]
    rw [hroutes]
    exact hy

/-- Forgetting fields of what is left of some values leaves what is left of these without the paths
of the fields as well. -/
theorem forget_remainders {vs keys : List Value} {paths : List String} {P : Finset (List String)}
    {bound : Nat} (hclosed : s.store.Closed) (hknown : ∀ x ∈ xs, s.store.Knows x)
    (ht : s.KeepsMappings t) (hbound : bound ≤ t.store.size) (hholds : t.store.Holds a c vs)
    (hvs : List.Forall₂ (Path.Remainder s.store t.store bound P) xs vs)
    (hpaths : namedPaths t.store keys = paths.map .str) :
    ∃ d u ys, (forget a keys).execute t = (.ok (.ref a), u) ∧ u.store.Holds a d ys ∧
      t.KeepsMappings u ∧
      List.Forall₂ (Path.Remainder s.store u.store u.store.size (P ∪ routes paths)) xs ys := by
  obtain ⟨hlength, hitems⟩ := List.forall₂_iff_get.mp hvs
  obtain ⟨d, u, ys, hrun, hd, hu, hys, hleft⟩ := forget_each keys hholds
    (R := fun i u y => ∀ (hi : i < xs.length),
      Path.Remainder s.store u.store u.store.size (P ∪ routes paths) xs[i] y)
    (fun i t u y h hu hi => ((h hi).later hu).raise hu.evolves.size_le) fun i hi u hu => by
      have hi' : i < xs.length := by omega
      obtain ⟨y, u', hrun, hu', hy⟩ := withoutAll_ok hclosed paths (hknown _ (xs.getElem_mem hi'))
        (ht.trans hu.keepsMappings) (hbound.trans hu.keepsMappings.evolves.size_le)
        ((hitems i hi' hi).later hu.keepsMappings)
      rw [← hpaths] at hrun
      exact ⟨y, u', hrun, hu', fun _ => hy⟩
  exact ⟨d, u, ys, hrun, hd, hu, List.forall₂_iff_get.mpr ⟨by omega, fun i hi hj => hleft i hj hi⟩⟩

/-- Forget fields of the items of a collection.  What is left of each item depends on the set of
their paths only: whoever forgets fields with the same paths, in whatever order and however often,
of a collection with the same items, or of one with what is left of them, is left with items that
are equal to these. -/
theorem forget_sameFields {keys : List Value} {paths : List String} (hclosed : s.store.Closed)
    (hkeyed : s.store.Keyed) (hholds : s.store.Holds a c xs)
    (hpaths : namedPaths s.store keys = paths.map .str) :
    ∃ d t ys, (forget a keys).execute s = (.ok (.ref a), t) ∧ t.store.Holds a d ys ∧
      List.Forall₂ (Path.Remainder s.store t.store t.store.size (routes paths)) xs ys ∧
      ∀ (r : State) (b : Address) (e : Collection) (vs more : List Value) (others : List String),
        t.KeepsMappings r → r.store.Holds b e vs → vs = xs ∨ vs = ys →
        namedPaths r.store more = others.map .str → (∀ p, p ∈ paths ↔ p ∈ others) →
        ∃ f u zs, (forget b more).execute r = (.ok (.ref b), u) ∧ u.store.Holds b f zs ∧
          List.Forall₂ (fun y z => u.store.matchesElement y z = .ok true ∧
            u.store.matchesElement z y = .ok true) ys zs := by
  have hknown : ∀ x ∈ xs, s.store.Knows x := fun x hx => hclosed.knows hholds.list hx
  have hstart : ∀ t : State, List.Forall₂ (Path.Remainder s.store t.store t.store.size ∅) xs xs :=
    fun t => List.forall₂_same.mpr fun _ _ => .same fun _ _ ⟨_, _, hrest, _⟩ =>
      absurd hrest (Finset.notMem_empty _)
  obtain ⟨d, t, ys, hrun, hd, ht, hys⟩ :=
    forget_remainders hclosed hknown (.refl s) (Nat.le_refl _) hholds (hstart s) hpaths
  rw [Finset.empty_union] at hys
  refine ⟨d, t, ys, hrun, hd, hys, ?_⟩
  intro r b e vs more others hr hb hvs hmore hsame
  have hagain : ∃ P, List.Forall₂ (Path.Remainder s.store r.store r.store.size P) xs vs ∧
      P ∪ routes others = routes paths := by
    rw [← routes_congr hsame]
    rcases hvs with rfl | rfl
    · exact ⟨∅, hstart r, Finset.empty_union _⟩
    · exact ⟨routes paths, hys.imp fun _ _ h => (h.later hr).raise hr.evolves.size_le,
        Finset.union_self _⟩
  obtain ⟨P, hvs, hroutes⟩ := hagain
  obtain ⟨f, u, zs, hrun', hf, hu, hzs⟩ := forget_remainders hclosed hknown (ht.trans hr)
    (Nat.le_refl _) hb hvs hmore
  rw [hroutes] at hzs
  refine ⟨f, u, zs, hrun', hf, ?_⟩
  obtain ⟨hlength, hys⟩ := List.forall₂_iff_get.mp hys
  obtain ⟨hlength', hzs⟩ := List.forall₂_iff_get.mp hzs
  refine List.forall₂_iff_get.mpr ⟨by omega, fun i hi hj => ?_⟩
  have hru := hr.trans hu
  exact ((hys i (by omega) hi).later hru).sameOr hclosed hkeyed (ht.trans hru) (hzs i (by omega) hj)
    (Nat.le_trans hru.evolves.size_le (Nat.le_add_right _ _))

/-- From the only item a field is forgotten, and a field of this field before it; then the same
ones are forgotten again, as a list in another order. -/
theorem forget_nestedRecord :
    (Path.nestedRecord.store.Closed ∧ Path.nestedRecord.store.Keyed ∧
      (∃ c, Path.nestedRecord.store.Holds ⟨5⟩ c [.ref ⟨6⟩]) ∧
      namedPaths Path.nestedRecord.store [.str "a.b", .str "a"] = ["a.b", "a"].map .str) ∧
    ∃ d t y, (forget ⟨5⟩ [.str "a.b", .str "a"]).execute Path.nestedRecord = (.ok (.ref ⟨5⟩), t) ∧
      t.store.Holds ⟨5⟩ d [y] ∧
      ∃ v r f u z, (Action.make (.list [.str "a", .str "a.b", .str "a"])).execute t = (.ok v, r) ∧
        (forget ⟨5⟩ [v]).execute r = (.ok (.ref ⟨5⟩), u) ∧ u.store.Holds ⟨5⟩ f [z] ∧
        u.store.matchesElement y z = .ok true := by
  have hkeyed : Path.nestedRecord.store.Keyed := by decide +kernel
  have hclosed : Path.nestedRecord.store.Closed := by decide
  have hholds : Path.nestedRecord.store.Holds ⟨5⟩
      { list := ⟨4⟩, validators := ⟨3⟩, policy := ⟨0⟩, registry := ⟨1⟩, generator := ⟨2⟩ }
      [.ref ⟨6⟩] := ⟨rfl, rfl⟩
  have hpaths : namedPaths Path.nestedRecord.store [.str "a.b", .str "a"] =
      ["a.b", "a"].map .str := rfl
  obtain ⟨d, t, ys, hrun, hd, hys, hagain⟩ := forget_sameFields hclosed hkeyed hholds hpaths
  cases hys with
  | @cons _ y _ _ _ hys =>
    cases hys
    obtain ⟨paths, r, hmake, hr, -, hlist⟩ :=
      t.make_ok (.list [.str "a", .str "a.b", .str "a"])
    have hmore : namedPaths r.store [.ref paths] = ["a", "a.b", "a"].map .str := by
      simp [namedPaths, Store.sequence?, Store.view, hlist]
    obtain ⟨f, u, zs, hrun', hf, hzs⟩ := hagain r ⟨5⟩ d [y] [.ref paths] ["a", "a.b", "a"]
      hr.grows.keepsMappings (hd.extends hr.extends) (.inr rfl) hmore (by simp)
    cases hzs with
    | @cons _ z _ _ hz hzs =>
      cases hzs
      exact ⟨⟨hclosed, hkeyed, ⟨_, hholds⟩, hpaths⟩, d, t, y, hrun, hd, _, r, f, u, z, hmake,
        hrun', hf, hz.1⟩

end Collection

end Recordset
