import Recordset.Collection.Transform
import Recordset.Proofs.Collection.Keys
import Recordset.Proofs.Collection.Selection
import Recordset.Proofs.Query.Equal
set_option autoImplicit false

/-!
# Dropping repeated keys

`Collection.unique` looks among the keys it has seen for one that equals the next key: among those
that can be in a set if the next one can be, and among the others if it can not. Equal keys that
differ in this are not found; the one that can not be in a set then holds a collection where the
other one holds a tuple (`Store.holdsCollection_of_equate`).

`Collection.unique_keepsFirsts` is the main statement: without such keys, what `unique` keeps is
what a plain scan over the keys keeps, and what is added to an empty collection.
-/

namespace Recordset

/-! ## Equal keys of which only one can be in a set -/

namespace Cell

/-- Two cells are of kinds that can both be keys or both not, and what has to be a key with the one
is equal, pair by pair, to what has to be a key with the other. -/
structure KeysMatch (eq : Value → Value → Except Error Bool) (c d : Cell) : Prop where
  kind : c.isKeyKind = d.isKeyKind
  parts : List.Forall₂ (fun x y => Store.sameOr eq x y = .ok true) c.keyParts d.keyParts

end Cell

namespace Store

variable {s : Store} {eq : Value → Value → Except Error Bool} {v w : Value} {c d : Cell}

/-- A value is a collection, or something that has to be a key for it to be one holds a
collection. -/
inductive HoldsCollection (s : Store) : Value → Prop where
  | itself {v : Value} {c : Collection} (hview : s.view v = some (.collection c)) :
      HoldsCollection s v
  | part {v w : Value} {c : Cell} (hview : s.view v = some c) (hpart : w ∈ c.keyParts)
      (hw : HoldsCollection s w) : HoldsCollection s v

/-- Lists of one length that are compared as equal hold elements that are equal pair by pair. -/
theorem forall₂_of_allEqual {xs ys : List Value} (hlength : xs.length = ys.length)
    (h : allEqual eq xs ys = .ok true) : List.Forall₂ (fun x y => eq x y = .ok true) xs ys := by
  induction xs generalizing ys with
  | nil =>
    obtain rfl := List.length_eq_zero_iff.mp hlength.symm
    exact .nil
  | cons x xs ih =>
    cases ys with
    | nil => cases hlength
    | cons y ys =>
      rw [allEqual] at h
      cases hxy : eq x y with
      | error e =>
        rw [hxy] at h
        cases h
      | ok b =>
        rw [hxy] at h
        cases b with
        | false => cases h
        | true => exact .cons hxy (ih (Nat.succ.inj hlength) h)

/-- Equal values that are not the same have cells that match as keys, unless one is a collection. -/
theorem keysMatch_of_cellsEqual {items : Collection → List Value}
    (h : cellsEqual items eq false c d = .ok true) :
    (∃ e, c = .collection e) ∨ (∃ e, d = .collection e) ∨ Cell.KeysMatch eq c d := by
  unfold cellsEqual at h
  split at h
  · cases h
  · cases h
  · exact .inr (.inr ⟨rfl, .nil⟩)
  · exact .inr (.inr ⟨rfl, forall₂_of_allEqual (tuplesEqual_iff.mp h).2 (tuplesEqual_iff.mp h).1⟩)
  · exact .inr (.inr ⟨rfl, .nil⟩)
  · exact .inr (.inr ⟨rfl, .nil⟩)
  · exact .inr (.inr ⟨rfl, .nil⟩)
  · exact .inr (.inr ⟨rfl, .nil⟩)
  · exact .inr (.inr ⟨rfl, .nil⟩)
  · exact .inl ⟨_, rfl⟩
  · exact .inl ⟨_, rfl⟩
  · exact .inl ⟨_, rfl⟩
  · exact .inr (.inl ⟨_, rfl⟩)
  · exact .inr (.inl ⟨_, rfl⟩)
  · -- The direction of a policy is compared too, but is no value that could fail to be a key.
    cases forall₂_of_allEqual (Eq.refl 4) h with
    | cons hperPage hrest =>
      cases hrest with
      | cons hseparator hrest =>
        cases hrest with
        | cons _ hrest => exact .inr (.inr ⟨rfl, .cons hperPage (.cons hseparator hrest)⟩)
  · cases h

/-- Two values are the same or equal, whichever of them comes first. -/
def Equate (eq : Value → Value → Except Error Bool) (v w : Value) : Prop :=
  sameOr eq v w = .ok true ∨ sameOr eq w v = .ok true

theorem Equate.symm (h : Equate eq v w) : Equate eq w v := Or.symm h

/-- Where only keys stand on the one side and not only keys on the other, a key is equal to
something that is none. -/
theorem exists_equate_of_forall₂ {isKey : Value → Bool} {xs ys : List Value}
    (h : List.Forall₂ (Equate eq) xs ys) (hxs : xs.all isKey = true) (hys : ys.all isKey = false) :
    ∃ x, ∃ y ∈ ys, Equate eq x y ∧ isKey x = true ∧ isKey y = false := by
  induction h with
  | nil => cases hys
  | @cons x y xs ys hxy hrest ih =>
    rw [List.all_cons, Bool.and_eq_true] at hxs
    rw [List.all_cons, Bool.and_eq_false_iff] at hys
    by_cases hy : isKey y = true
    · have hmore : ys.all isKey = false := hys.resolve_left fun hnot => by
        rw [hy] at hnot
        cases hnot
      obtain ⟨u, w, hw, huw⟩ := ih hxs.2 hmore
      exact ⟨u, w, List.mem_cons_of_mem y hw, huw⟩
    · exact ⟨x, y, List.mem_cons_self, hxy, hxs.1, Bool.eq_false_iff.mpr hy⟩

/-- Of the values with cells each is the same as itself only. -/
theorem eq_of_same_of_view (hd : s.view w = some d) (h : v.same w = true) : v = w := by
  cases w with
  | ref b =>
    cases v with
    | ref a => exact congrArg Value.ref (beq_iff_eq.mp h)
    | _ => cases h
  | _ => cases hd

/-- A value that equals one with a cell has a cell too, and the two cells are equal. -/
theorem exists_view_of_equate {fuel : Nat} (hd : s.view w = some d) (hne : v.same w = false)
    (h : Equate (s.equalAt (fuel + 1)) v w) :
    ∃ c, s.view v = some c ∧ (cellsEqual s.items (s.equalAt fuel) false c d = .ok true ∨
      cellsEqual s.items (s.equalAt fuel) false d c = .ok true) := by
  have hne' : w.same v = false := (Value.same_comm w v).trans hne
  unfold Equate sameOr at h
  rw [hne, hne', if_neg Bool.false_ne_true, if_neg Bool.false_ne_true] at h
  cases hc : s.view v with
  | some c =>
    rw [equalAt_of_view hc hd, equalAt_of_view hd hc, hne, hne'] at h
    exact ⟨c, rfl, h⟩
  | none =>
    cases w with
    | ref b =>
      have hback : s.equalAt (fuel + 1) (.ref b) v ≠ .ok true := by
        have hsimple : simpleEqual (.ref b) v = false := hne'
        rw [equalAt_eq_simpleEqual rfl (.inr hc), hd, hc, hsimple]
        cases d <;> exact nofun
      have hthere : s.equalAt (fuel + 1) v (.ref b) ≠ .ok true := by
        have hsimple : simpleEqual v (.ref b) = false := by cases v <;> exact hne
        rw [equalAt, hc, hd, hsimple]
        cases v.number? <;> cases d <;> exact nofun
      exact absurd h (not_or.mpr ⟨hthere, hback⟩)
    | _ => cases hd

/-- Of two equal values of which only one can be a key, the other one holds a collection. -/
theorem holdsCollection_of_equate : ∀ (fuel : Nat) {v w : Value},
    Equate (s.equalAt fuel) v w → s.isKeyAt fuel v = true → s.isKeyAt fuel w = false →
      s.HoldsCollection w := by
  intro fuel
  induction fuel with
  | zero =>
    intro v w _ hv
    cases hv
  | succ fuel ih =>
    intro v w h hv hw
    cases hd : s.view w with
    | none =>
      rw [isKeyAt_of_no_view hd] at hw
      cases hw
    | some d =>
      have hne : v.same w = false := by
        refine Bool.eq_false_iff.mpr fun hsame => ?_
        rw [eq_of_same_of_view hd hsame, hw] at hv
        cases hv
      obtain ⟨c, hc, hequal⟩ := exists_view_of_equate hd hne h
      rw [isKeyAt_of_view hc, Bool.and_eq_true] at hv
      rw [isKeyAt_of_view hd] at hw
      have hmatch : (∃ e, c = .collection e) ∨ (∃ e, d = .collection e) ∨
          (c.isKeyKind = d.isKeyKind ∧
            List.Forall₂ (Equate (s.equalAt fuel)) c.keyParts d.keyParts) := by
        rcases hequal with hequal | hequal
        · refine (keysMatch_of_cellsEqual hequal).imp_right (Or.imp_right fun hmatch => ?_)
          exact ⟨hmatch.kind, hmatch.parts.imp fun x y hxy => .inl hxy⟩
        · rcases keysMatch_of_cellsEqual hequal with hd | hc | hmatch
          · exact .inr (.inl hd)
          · exact .inl hc
          · exact .inr (.inr ⟨hmatch.kind.symm, .flip (hmatch.parts.imp fun x y hxy => .inr hxy)⟩)
      rcases hmatch with ⟨e, rfl⟩ | ⟨e, rfl⟩ | ⟨hkind, hparts⟩
      · cases hv.1
      · exact .itself hd
      · rw [← hkind, hv.1, Bool.true_and] at hw
        obtain ⟨x, y, hy, hxy, hx, hynot⟩ := exists_equate_of_forall₂ hparts hv.2 hw
        exact .part hd hy (ih hxy hx hynot)

theorem sameKey_iff : s.sameKey v w = true ↔ s.matchesElement v w = .ok true := by
  unfold sameKey succeeds
  cases s.matchesElement v w with
  | error e => exact ⟨nofun, nofun⟩
  | ok b => exact ⟨congrArg Except.ok, Except.ok.inj⟩

/-- Comparisons that all succeed find a value in a list that equals another one. -/
theorem anyEqual_ok {xs : List Value} (h : ∀ x ∈ xs, ∃ b, s.matchesElement x v = .ok b) :
    s.anyEqual v xs = .ok (xs.any (s.sameKey · v)) := by
  induction xs with
  | nil => rfl
  | cons x xs ih =>
    obtain ⟨b, hb⟩ := h x List.mem_cons_self
    have hsame : s.sameKey x v = b := by
      unfold sameKey succeeds
      rw [hb]
    rw [anyEqual, hb, List.any_cons, hsame, ih fun y hy => h y (List.mem_cons_of_mem x hy)]
    cases b <;> rfl

end Store

/-! ## The keys that have been seen -/

namespace Collection

variable {caller : Caller} {a b : Address} {c : Collection} {xs : List Value} {s t : State}
  {keyOrFn other : Value} {p f : Found} {fs kept : List Found}

namespace Found

/-- Whether the key can be in a set, where it is found. -/
def isKey (f : Found) : Bool := f.store.isKey f.key

/-- The comparison of a key with one that is found later does not fail. -/
def Compares (p f : Found) : Prop := ∃ b, f.store.matchesElement p.key f.key = .ok b

/-- A key equals one that is found later, at the time when that is found. -/
def Equals (p f : Found) : Prop := f.store.matchesElement p.key f.key = .ok true

/-- A key equals one that is found later, and both can be in a set or both can not. -/
def Kin (p f : Found) : Prop := p.isKey = f.isKey ∧ p.Equals f

/-- A key equals one that is found later, but only one of them can be in a set. -/
def Clashes (p f : Found) : Prop := p.isKey ≠ f.isKey ∧ p.Equals f

instance (p f : Found) : Decidable (p.Compares f) :=
  decidable_of_iff (∃ b, f.store.matchesElement p.key f.key = .ok b ∧ True)
    (exists_congr fun _ => and_iff_left trivial)

instance (p f : Found) : Decidable (p.Equals f) := decidable_of_iff _ Store.sameKey_iff

instance (p f : Found) : Decidable (p.Kin f) := inferInstanceAs (Decidable (_ ∧ _))

theorem Equals.kin_iff (h : p.Equals f) : p.Kin f ↔ ¬ p.Clashes f :=
  ⟨fun hkin hclash => hclash.1 hkin.1, fun hclash => ⟨not_not.mp fun hne => hclash ⟨hne, h⟩, h⟩⟩

/-- Of two keys that clash, the one that can not be in a set holds a collection. -/
theorem Clashes.holdsCollection (h : p.Clashes f) (hsteady : f.store.isKey p.key = p.isKey) :
    f.store.HoldsCollection p.key ∨ f.store.HoldsCollection f.key := by
  obtain ⟨hne, hequal⟩ := h
  have hequate : Store.Equate (f.store.equalAt f.store.depth) p.key f.key := .inl hequal
  rw [← hsteady] at hne
  cases hp : f.store.isKey p.key with
  | true =>
    have hf : f.store.isKey f.key = false := Bool.eq_false_iff.mpr fun hf => hne (hp.trans hf.symm)
    exact .inr (Store.holdsCollection_of_equate _ hequate hp hf)
  | false =>
    have hf : f.store.isKey f.key = true := by
      cases hf : f.store.isKey f.key with
      | true => rfl
      | false => exact absurd (hp.trans hf.symm) hne
    exact .inl (Store.holdsCollection_of_equate _ hequate.symm hf hp)

end Found

/-- What has been seen when some items have been kept. -/
def Seen.of (kept : List Found) : Seen where
  keys := (kept.filter Found.isKey).map Found.key
  others := (kept.filter fun p => !p.isKey).map Found.key
  kept := kept.map Found.item

/-- The keys that the next one is compared with. -/
def peers (kept : List Found) (f : Found) : List Value :=
  (kept.filter fun p => p.isKey == f.isKey).map Found.key

theorem any_peers_iff :
    (peers kept f).any (f.store.sameKey · f.key) = true ↔ ∃ p ∈ kept, p.Kin f := by
  simp [peers, Found.Kin, Found.Equals, Store.sameKey_iff]

/-- An item is dropped when its key equals one of those that it is compared with. -/
theorem Seen.add_eq (hcompares : ∀ p ∈ kept, p.Compares f) :
    Seen.add f.store (Seen.of kept) f.key f.item =
      if (peers kept f).any (f.store.sameKey · f.key) then .ok (Seen.of kept)
      else .ok (Seen.of (kept ++ [f])) := by
  have hkind : f.store.isKey f.key = f.isKey := rfl
  unfold Seen.add
  rw [hkind]
  cases hkey : f.isKey with
  | true =>
    have hpeers : (Seen.of kept).keys = peers kept f := by simp [Seen.of, peers, hkey]
    rw [if_pos rfl, hpeers]
    simp [Seen.of, peers, List.filter_append, hkey]
  | false =>
    have hpeers : (Seen.of kept).others = peers kept f := by simp [Seen.of, peers, hkey]
    have hscan : f.store.anyEqual f.key (peers kept f) =
        .ok ((peers kept f).any (f.store.sameKey · f.key)) := by
      refine Store.anyEqual_ok fun k hk => ?_
      obtain ⟨p, hp, rfl⟩ := List.mem_map.mp hk
      exact hcompares p (List.mem_of_mem_filter hp)
    have hnext : Seen.of (kept ++ [f]) = { Seen.of kept with
        others := peers kept f ++ [f.key], kept := (Seen.of kept).kept ++ [f.item] } := by
      simp [Seen.of, peers, List.filter_append, hkey]
    rw [if_neg Bool.false_ne_true, hpeers, hscan, hnext]
    cases (peers kept f).any (f.store.sameKey · f.key) <;> rfl

/-- What is seen of visited items are those that are kept when each one is dropped that is kin to
one kept before. -/
theorem foldlM_add (hcompares : fs.Pairwise Found.Compares) :
    ∃ held, KeepsFirsts (Among fs Found.Kin) fs.length held ∧
      fs.foldlM (fun seen f => Seen.add f.store seen f.key f.item) {} =
        .ok (Seen.of (elementsAt fs held)) := by
  refine foldlM_firsts Seen.of (fun kept f hkept hkin => ?_) (fun kept f hkept hkin => ?_) hcompares
  · rw [Seen.add_eq hkept, if_pos (any_peers_iff.mpr hkin)]
  · rw [Seen.add_eq hkept, if_neg fun hany => ?_]
    obtain ⟨p, hp, hpf⟩ := any_peers_iff.mp hany
    exact hkin p hp hpf

/-- What is added of items to none are those that are kept when each one is dropped that equals one
kept before. -/
theorem addMissing_ok {r : Store}
    (hcompares : xs.Pairwise fun v w => ∃ b, r.matchesElement v w = .ok b) :
    ∃ held, KeepsFirsts (Among xs fun v w => r.matchesElement v w = .ok true) xs.length held ∧
      addMissing r [] xs = .ok (elementsAt xs held) := by
  have hfold : ∀ ys kept, addMissing r kept ys = ys.foldlM (fun kept v => do
      if ← r.anyEqual v kept then return kept else return kept ++ [v]) kept := by
    intro ys
    induction ys with
    | nil => exact fun _ => rfl
    | cons v ys ih =>
      intro kept
      rw [addMissing, List.foldlM_cons, bind_assoc]
      refine bind_congr fun b => ?_
      cases b with
      | true => exact ih kept
      | false => exact ih (kept ++ [v])
  rw [hfold]
  refine foldlM_firsts id (fun kept v hkept hequal => ?_) (fun kept v hkept hequal => ?_) hcompares
  · obtain ⟨w, hw, hwv⟩ := hequal
    have hany : kept.any (r.sameKey · v) = true :=
      List.any_eq_true.mpr ⟨w, hw, Store.sameKey_iff.mpr hwv⟩
    rw [id, Store.anyEqual_ok hkept, hany]
    rfl
  · have hany : kept.any (r.sameKey · v) = false :=
      List.any_eq_false.mpr fun w hw => fun hwv => hequal w hw (Store.sameKey_iff.mp hwv)
    rw [id, Store.anyEqual_ok hkept, hany]
    rfl

/-! ## What is kept -/

/-- An action that has come to another state gives a new collection over the items of a list there,
and changes no items and no fields of anything else any more. -/
def GivesAfter (x : Action Value) (ys : List Value) (s t : State) : Prop :=
  ∃ b d u, x.execute s = (.ok (.ref b), u) ∧ t.Extends u ∧ u.store.Holds b d ys ∧ d.fields = [] ∧
    t.store.size ≤ b.index

/-- The items that `unique` keeps of visited ones. -/
theorem unique_ok (hfinds : FindsAll caller (Key.of s.store keyOrFn) a fs s t)
    (hcompares : fs.Pairwise Found.Compares) :
    ∃ kept, KeepsFirsts (Among fs Found.Kin) fs.length kept ∧
      GivesAfter (unique caller a keyOrFn) ((elementsAt fs kept).map Found.item) s t := by
  obtain ⟨kept, hkept, hfold⟩ := foldlM_add hcompares
  obtain ⟨u, hrun, hend⟩ := hfinds.execute_fold
    (fun r (seen : Seen) k item => Seen.add r seen k item) {}
  obtain rfl := hend _ hfold
  obtain ⟨c, hcell⟩ := hfinds.collection
  obtain ⟨b, d, w, hderived, hgrows, hholds⟩ :=
    derived_ok hcell ((elementsAt fs kept).map Found.item)
  rw [hfold] at hrun
  refine ⟨kept, hkept, b, d, w, ?_, hgrows.extends, hholds⟩
  unfold unique keyOf
  rw [bind_assoc, Action.execute_get_bind, pure_bind, Action.execute_bind_of_ok hrun]
  exact hderived

/-- The items that are added to a collection without any. -/
theorem union_ok (hempty : s.store.Lists b [])
    (hother : (initialItems other).execute s = (.ok xs, s))
    (hcompares : (itself xs s.store).Pairwise Found.Compares) :
    ∃ plain, KeepsFirsts (Among (itself xs s.store) Found.Equals) xs.length plain ∧
      Gives (union b other) (elementsAt xs plain) s := by
  obtain ⟨plain, hplain, hadded⟩ := addMissing_ok (List.pairwise_map.mp hcompares)
  obtain ⟨c, hholds⟩ := hempty
  refine ⟨plain, hplain.congr fun j i _ _ => ?_,
    (gives_derived hholds.cell _).of_extends (.refl s) ?_⟩
  · exact (among_map (fun v => Found.mk v v s.store) xs Found.Equals).symm
  · unfold union
    rw [Action.execute_bind_of_ok (execute_itemsOf hholds), Action.execute_bind_of_ok hother,
      Action.execute_bind, Action.execute_look, hadded]

/-- What is kept are the first ones of equal keys when, of what is kept, no two keys clash. -/
theorem keepsFirsts_equals_iff {n : Nat} {held : List Nat}
    (hkept : KeepsFirsts (Among fs Found.Kin) n held) :
    KeepsFirsts (Among fs Found.Equals) n held ↔
      ∀ j ∈ held, ∀ i ∈ held, j < i → ¬ Among fs Found.Clashes j i := by
  have hequals : ∀ j i, Among fs Found.Kin j i → Among fs Found.Equals j i :=
    fun j i ⟨p, f, hp, hf, hkin⟩ => ⟨p, f, hp, hf, hkin.2⟩
  refine (hkept.iff_of_imp fun j _ i => hequals j i).trans ?_
  refine forall₂_congr fun j hj => forall₂_congr fun i hi => imp_congr_right fun hji =>
    not_congr ⟨fun ⟨p, f, hp, hf, hequal⟩ => ⟨p, f, hp, hf, ?_⟩,
      fun ⟨p, f, hp, hf, hclash⟩ => ⟨p, f, hp, hf, hclash.2⟩⟩
  have hnot : ¬ p.Kin f := fun hkin => ((hkept.mem_iff i).mp hi).2 j hj hji ⟨p, f, hp, hf, hkin⟩
  exact not_not.mp fun hclash => hnot (hequal.kin_iff.mpr hclash)

/-- The keys do not clash when what can be in a set stays so and no key holds a collection. -/
theorem not_clashes (hsteady : ∀ p ∈ fs, ∀ f ∈ fs, f.store.isKey p.key = p.isKey)
    (hnone : ∀ p ∈ fs, ∀ f ∈ fs, ¬ f.store.HoldsCollection p.key) (j i : Nat) :
    ¬ Among fs Found.Clashes j i := by
  rintro ⟨p, f, hp, hf, hclash⟩
  have hp := List.mem_of_getElem? hp
  have hf := List.mem_of_getElem? hf
  rcases hclash.holdsCollection (hsteady p hp f hf) with hholds | hholds
  · exact hnone p hp f hf hholds
  · exact hnone f hf f hf hholds

/-- Dropping repeated keys keeps exactly those items whose keys equal none that has been kept, as
adding the items to none does, unless two of the keys that are kept clash: equal keys of which only
one can be in a set, which takes a key that holds a collection. Keys at a path that does not break
are always found. -/
theorem unique_keepsFirsts (hlists : s.store.Lists a xs) :
    (∀ path : String, Path.Unbroken s xs (.str path) →
      ∃ fs t, FindsAll caller (Key.of s.store (.str path)) a fs s t ∧ s.Extends t ∧
        fs.map Found.item = xs) ∧
    (∀ keyOrFn fs t, FindsAll caller (Key.of s.store keyOrFn) a fs s t →
      fs.Pairwise Found.Compares →
      ∃ kept, KeepsFirsts (Among fs Found.Kin) fs.length kept ∧
        GivesAfter (unique caller a keyOrFn) ((elementsAt fs kept).map Found.item) s t ∧
        (KeepsFirsts (Among fs Found.Equals) fs.length kept ↔
          ∀ j ∈ kept, ∀ i ∈ kept, j < i → ¬ Among fs Found.Clashes j i) ∧
        ((∀ p ∈ fs, ∀ f ∈ fs, f.store.isKey p.key = p.isKey) →
          (∀ p ∈ fs, ∀ f ∈ fs, ¬ f.store.HoldsCollection p.key) →
          KeepsFirsts (Among fs Found.Equals) fs.length kept)) ∧
    (∀ b other, s.store.Lists b [] → (initialItems other).execute s = (.ok xs, s) →
      (itself xs s.store).Pairwise Found.Compares →
      ∃ kept plain, KeepsFirsts (Among (itself xs s.store) Found.Equals) xs.length plain ∧
        Gives (unique caller a .null) (elementsAt xs kept) s ∧
        Gives (union b other) (elementsAt xs plain) s ∧
        (kept = plain ↔
          ∀ j ∈ kept, ∀ i ∈ kept, j < i → ¬ Among (itself xs s.store) Found.Clashes j i)) := by
  refine ⟨fun path => findsAll_path path hlists, fun keyOrFn fs t hfinds hcompares => ?_,
    fun b other hempty hother hcompares => ?_⟩
  · obtain ⟨kept, hkept, hgives⟩ := unique_ok hfinds hcompares
    have hiff := keepsFirsts_equals_iff hkept
    exact ⟨kept, hkept, hgives, hiff, fun hsteady hnone =>
      hiff.mpr fun j _ i _ _ => not_clashes hsteady hnone j i⟩
  · have hlength : (itself xs s.store).length = xs.length := List.length_map _
    obtain ⟨kept, hkept, hunique⟩ := @unique_ok caller a s s .null _
      (findsAll_itself hlists) hcompares
    obtain ⟨plain, hplain, hunion⟩ := union_ok hempty hother hcompares
    rw [hlength] at hkept
    refine ⟨kept, plain, hplain, ?_, hunion, ?_⟩
    · rwa [itself, elementsAt_map, List.map_map, Function.comp_def, List.map_id'] at hunique
    · rw [← keepsFirsts_equals_iff hkept]
      exact ⟨fun heq => heq ▸ hplain, fun h => h.unique hplain⟩

/-- Of numbers and lists one number and one list are kept, by dropping and by adding. -/
theorem unique_numbersAndLists :
    Gives (unique apply ⟨5⟩ .null) [.int 1, .ref ⟨6⟩] numbersAndLists ∧
      Gives (union ⟨9⟩ (.ref ⟨5⟩)) [.int 1, .ref ⟨6⟩] numbersAndLists := by
  have hlists : numbersAndLists.store.Lists ⟨5⟩ [.int 1, .ref ⟨6⟩, .bool true, .ref ⟨7⟩] :=
    ⟨_, rfl, rfl⟩
  have hcompares : (itself [.int 1, .ref ⟨6⟩, .bool true, .ref ⟨7⟩]
      numbersAndLists.store).Pairwise Found.Compares := by decide
  have hsteady : ∀ p ∈ itself [.int 1, .ref ⟨6⟩, .bool true, .ref ⟨7⟩] numbersAndLists.store,
      ∀ f ∈ itself [.int 1, .ref ⟨6⟩, .bool true, .ref ⟨7⟩] numbersAndLists.store,
        f.store.isKey p.key = p.isKey := by decide
  have hnone : ∀ p ∈ itself [.int 1, .ref ⟨6⟩, .bool true, .ref ⟨7⟩] numbersAndLists.store,
      ∀ f ∈ itself [.int 1, .ref ⟨6⟩, .bool true, .ref ⟨7⟩] numbersAndLists.store,
        ¬ f.store.HoldsCollection p.key := by
    intro p hp f hf
    obtain ⟨v, hv, rfl⟩ := List.mem_map.mp hp
    obtain ⟨w, -, rfl⟩ := List.mem_map.mp hf
    simp only [List.mem_cons, List.not_mem_nil, or_false] at hv
    rcases hv with rfl | rfl | rfl | rfl
    all_goals
      rintro (⟨hview⟩ | ⟨hview, hpart, -⟩)
      · cases hview
      · cases hview <;> cases hpart
  obtain ⟨kept, plain, hplain, hunique, hunion, hiff⟩ :=
    (unique_keepsFirsts hlists).2.2 ⟨9⟩ (.ref ⟨5⟩) ⟨_, rfl, rfl⟩ rfl hcompares
  obtain rfl : plain = [0, 1] := hplain.unique (by decide)
  obtain rfl : kept = [0, 1] := hiff.mpr fun j _ i _ _ => not_clashes hsteady hnone j i
  exact ⟨hunique, hunion⟩

/-- A collection of a tuple and a collection that are equal, and one without items. -/
def tupleAndCollection : State where
  store := { cells := #[
    .policy {},
    .registry {},
    .generator ⟨0⟩,
    .dict [],
    .list [.ref ⟨6⟩, .ref ⟨8⟩],
    .collection
      { list := ⟨4⟩, validators := ⟨3⟩, policy := ⟨0⟩, registry := ⟨1⟩, generator := ⟨2⟩ },
    .tuple [.int 1, .int 2],
    .list [.int 1, .int 2],
    .collection
      { list := ⟨7⟩, validators := ⟨3⟩, policy := ⟨0⟩, registry := ⟨1⟩, generator := ⟨2⟩ },
    .list [],
    .collection
      { list := ⟨9⟩, validators := ⟨3⟩, policy := ⟨0⟩, registry := ⟨1⟩, generator := ⟨2⟩ }] }

/-- Dropping repeated items keeps a tuple and a collection that equals it, where adding the items to
none keeps the tuple only. -/
theorem unique_tupleAndCollection :
    Gives (unique apply ⟨5⟩ .null) [.ref ⟨6⟩, .ref ⟨8⟩] tupleAndCollection ∧
      Gives (union ⟨10⟩ (.ref ⟨5⟩)) [.ref ⟨6⟩] tupleAndCollection ∧
      tupleAndCollection.store.matchesElement (.ref ⟨6⟩) (.ref ⟨8⟩) = .ok true := by
  have hlists : tupleAndCollection.store.Lists ⟨5⟩ [.ref ⟨6⟩, .ref ⟨8⟩] := ⟨_, rfl, rfl⟩
  have hempty : tupleAndCollection.store.Lists ⟨10⟩ [] := ⟨_, rfl, rfl⟩
  have hcompares : (itself [.ref ⟨6⟩, .ref ⟨8⟩] tupleAndCollection.store).Pairwise
      Found.Compares := by decide
  obtain ⟨kept, hkept, hunique⟩ :=
    @unique_ok apply ⟨5⟩ _ _ .null _ (findsAll_itself hlists) hcompares
  obtain ⟨plain, hplain, hunion⟩ := @union_ok ⟨10⟩ _ _ (.ref ⟨5⟩) hempty rfl hcompares
  obtain rfl : kept = [0, 1] := hkept.unique (by decide)
  obtain rfl : plain = [0] := hplain.unique (by decide)
  exact ⟨hunique, hunion, rfl⟩

end Collection

end Recordset
