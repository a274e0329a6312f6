import Recordset.Proofs.Collection.Keys
set_option autoImplicit false

/-!
# Filing items under their keys

`Collection.keyBy` files each item under its key: under null where the key is missing, under the
text of a key of a kind that can be no key. A key of another kind is taken as it is, so that a tuple
that holds a list, which can be no key either, is refused.

`Collection.keyBy_lastOnes` is the main statement: where each item can be filed, the names are those
that come up first, in order, and under each one is the last item with that name.
-/

namespace Recordset

namespace Collection

variable {caller : Caller} {a : Address} {xs : List Value} {s t : State} {keyOrFn k : Value}
  {f : Found} {fs : List Found} {es : Entries}

/-! ## What an item is filed under -/

namespace Found

/-- The key, null for a missing one. -/
def present (f : Found) : Value := if f.key.isMissing then .null else f.key

/-- What an item is filed under: its key, if that can be a key, and the text of a key of a kind that
can be none. -/
inductive FiledAs (f : Found) : Value → Prop where
  | key (hkey : f.store.isKey f.present = true) : FiledAs f f.present
  | text {t : String} (hkind : f.store.isKeyKind f.present = false)
    (htext : f.store.text f.present = .ok t) : FiledAs f (.str t)

theorem fileKey_of_kind (h : f.store.isKeyKind f.present = true) :
    Aggregate.fileKey f.store f.key = .ok f.present := if_pos h

theorem fileKey_of_not_kind (h : f.store.isKeyKind f.present = false) :
    Aggregate.fileKey f.store f.key = (f.store.text f.present).map Value.str := by
  refine (if_neg (Bool.eq_false_iff.mp h)).trans ?_
  change (f.store.text f.present >>= fun t => pure (Value.str t)) = _
  cases f.store.text f.present <;> rfl

/-- An item that is filed under something is put there. -/
theorem FiledAs.file (h : f.FiledAs k) (es : Entries) :
    Aggregate.file f.store es f.key f.item = .ok (Entries.insert f.store es k f.item) := by
  unfold Aggregate.file
  cases h with
  | key hkey =>
    rw [fileKey_of_kind (Store.isKeyKind_of_isKeyAt hkey)]
    exact if_pos hkey
  | text hkind htext =>
    rw [fileKey_of_not_kind hkind, htext]
    rfl

/-- What has been put somewhere is filed under something. -/
theorem exists_filedAs {es' : Entries}
    (h : Aggregate.file f.store es f.key f.item = .ok es') : ∃ k, f.FiledAs k := by
  unfold Aggregate.file at h
  cases hkind : f.store.isKeyKind f.present with
  | true =>
    rw [fileKey_of_kind hkind] at h
    by_cases hkey : f.store.isKey f.present = true
    · exact ⟨_, .key hkey⟩
    · cases (if_neg hkey).symm.trans h
  | false =>
    rw [fileKey_of_not_kind hkind] at h
    cases htext : f.store.text f.present with
    | error e =>
      rw [htext] at h
      cases h
    | ok t => exact ⟨_, .text hkind htext⟩

end Found

/-- A visited item and what it is filed under. -/
structure Filing where
  found : Found
  name : Value
  filed : found.FiledAs name

namespace Filing

/-- The name of an item is the one that an earlier item has, at the time when it is filed. -/
def SameName (p g : Filing) : Prop := g.found.store.sameKey p.name g.name = true

instance (p g : Filing) : Decidable (p.SameName g) := inferInstanceAs (Decidable (_ = true))

variable {gs : List Filing} {p g : Filing} {held : List Nat} {e : Value × Value} {i j n : Nat}

/-- Of the first `n` positions one is the last with the name that a position has: the position
itself, when no later one has its name. -/
structure LastOf (gs : List Filing) (n j i : Nat) : Prop where
  lt : i < n
  same : i = j ∨ j < i ∧ Among gs SameName j i
  last : ∀ m, i < m → m < n → ¬ Among gs SameName j m

/-- An entry for the name that comes up at a position: that name, and the last item with it among
the first `n`. -/
def IsEntry (gs : List Filing) (n j : Nat) (e : Value × Value) : Prop :=
  ∃ p i g, gs[j]? = some p ∧ gs[i]? = some g ∧ LastOf gs n j i ∧ e = (p.name, g.found.item)

theorem LastOf.le (h : LastOf gs n j i) : j < n := by
  rcases h.same with rfl | ⟨hlt, -⟩
  · exact h.lt
  · exact Nat.lt_trans hlt h.lt

/-- The next item takes the place of the one in an entry with its name. -/
theorem IsEntry.succ (h : IsEntry gs n j e) (hg : gs[n]? = some g) :
    IsEntry gs (n + 1) j
      (if g.found.store.sameKey e.1 g.name then (e.1, g.found.item) else e) := by
  obtain ⟨p, i, q, hp, hq, hlast, rfl⟩ := h
  have hsame : Among gs SameName j n ↔ g.found.store.sameKey p.name g.name = true := by
    refine ⟨fun ⟨u, v, hu, hv, huv⟩ => ?_, fun huv => ⟨p, g, hp, hg, huv⟩⟩
    cases hp.symm.trans hu
    cases hg.symm.trans hv
    exact huv
  split
  next htaken =>
    refine ⟨p, n, g, hp, hg, ⟨n.lt_succ_self, .inr ⟨hlast.le, hsame.mpr htaken⟩, ?_⟩, rfl⟩
    intro m hnm hm
    omega
  next hother =>
    refine ⟨p, i, q, hp, hq, ⟨Nat.lt_succ_of_lt hlast.lt, hlast.same, fun m him hm => ?_⟩, rfl⟩
    rcases Nat.lt_succ_iff_lt_or_eq.mp hm with hm | rfl
    · exact hlast.last m him hm
    · exact fun h => hother (hsame.mp h)

theorem LastOf.unique {m : Nat} (h : LastOf gs n j i) (h' : LastOf gs n j m) : i = m := by
  rcases Nat.lt_trichotomy i m with hlt | heq | hlt
  · rcases h'.same with rfl | ⟨-, hsame⟩
    · rcases h.same with rfl | ⟨hji, -⟩ <;> omega
    · exact absurd hsame (h.last m hlt h'.lt)
  · exact heq
  · rcases h.same with rfl | ⟨-, hsame⟩
    · rcases h'.same with rfl | ⟨hji, -⟩ <;> omega
    · exact absurd hsame (h'.last i hlt h.lt)

/-- There is only one entry for a name. -/
theorem isEntry_rightUnique (gs : List Filing) (n : Nat) : Relator.RightUnique (IsEntry gs n) := by
  rintro j e e' ⟨p, i, g, hp, hg, hlast, rfl⟩ ⟨p', i', g', hp', hg', hlast', rfl⟩
  obtain rfl := hlast.unique hlast'
  cases hp.symm.trans hp'
  cases hg.symm.trans hg'
  rfl

/-- The names in the entries are those at the positions that are kept. -/
theorem names_of_entries (h : List.Forall₂ (IsEntry gs n) held es) :
    es.map Prod.fst = (elementsAt gs held).map name := by
  induction h with
  | nil => rfl
  | @cons j e held es he _ ih =>
    obtain ⟨p, i, g, hp, -, -, rfl⟩ := he
    rw [List.map_cons, ih]
    simp [elementsAt, hp]

/-- A name is there when an item with it has been kept. -/
theorem contains_iff (h : List.Forall₂ (IsEntry gs n) held es) (hg : gs[i]? = some g) :
    Entries.contains g.found.store es g.name = true ↔ ∃ j ∈ held, Among gs SameName j i := by
  have hnames : Entries.contains g.found.store es g.name =
      ((elementsAt gs held).map name).any (g.found.store.sameKey · g.name) := by
    rw [← names_of_entries h, List.any_map]
    rfl
  rw [hnames, List.any_map, List.any_eq_true]
  refine ⟨fun ⟨p, hp, hsame⟩ => ?_, fun ⟨j, hj, p, q, hp, hq, hsame⟩ => ?_⟩
  · obtain ⟨j, hj, hp⟩ := mem_elementsAt.mp hp
    exact ⟨j, hj, p, g, hp, hg, hsame⟩
  · cases hg.symm.trans hq
    exact ⟨p, mem_elementsAt.mpr ⟨j, hj, hp⟩, hsame⟩

/-- Filing the next item keeps an entry for each name that has come up. -/
theorem insert_entries (hheld : KeepsFirsts (Among gs SameName) n held)
    (h : List.Forall₂ (IsEntry gs n) held es) (hg : gs[n]? = some g) :
    ∃ held', KeepsFirsts (Among gs SameName) (n + 1) held' ∧ List.Forall₂ (IsEntry gs (n + 1)) held'
      (Entries.insert g.found.store es g.name g.found.item) := by
  have hupdated : List.Forall₂ (IsEntry gs (n + 1)) held
      (es.map fun e => if g.found.store.sameKey e.1 g.name then (e.1, g.found.item) else e) :=
    List.forall₂_map_right_iff.mpr (h.imp fun j e he => he.succ hg)
  unfold Entries.insert
  split
  next hthere =>
    exact ⟨held, hheld.drop ((contains_iff h hg).mp hthere), hupdated⟩
  next hmissing =>
    have hnone : ∀ j ∈ held, ¬ Among gs SameName j n := fun j hj hsame =>
      hmissing ((contains_iff h hg).mpr ⟨j, hj, hsame⟩)
    have hkept : (es.map fun e =>
        if g.found.store.sameKey e.1 g.name then (e.1, g.found.item) else e) = es :=
      (List.map_congr_left fun e he => if_neg fun hsame =>
        hmissing (List.any_eq_true.mpr ⟨e, he, hsame⟩)).trans (List.map_id es)
    have hnew : IsEntry gs (n + 1) n (g.name, g.found.item) :=
      ⟨g, n, g, hg, hg, ⟨n.lt_succ_self, .inl rfl, fun m hnm hm => by omega⟩, rfl⟩
    rw [hkept] at hupdated
    exact ⟨held ++ [n], hheld.keep hnone, List.rel_append hupdated (.cons hnew .nil)⟩

/-- Filing items one after another gives an entry for each name that comes up. -/
theorem foldlM_file (gs : List Filing) :
    ∃ held es, KeepsFirsts (Among gs SameName) gs.length held ∧
      List.Forall₂ (IsEntry gs gs.length) held es ∧
      (gs.map found).foldlM (fun es f => Aggregate.file f.store es f.key f.item) [] = .ok es := by
  have hstep : ∀ n (hn : n < gs.length) es, (∃ held, KeepsFirsts (Among gs SameName) n held ∧
      List.Forall₂ (IsEntry gs n) held es) →
      ∃ next, Aggregate.file gs[n].found.store es gs[n].found.key gs[n].found.item = .ok next ∧
        ∃ held, KeepsFirsts (Among gs SameName) (n + 1) held ∧
          List.Forall₂ (IsEntry gs (n + 1)) held next := by
    rintro n hn es ⟨held, hheld, hes⟩
    exact ⟨_, gs[n].filed.file es, insert_entries hheld hes (List.getElem?_eq_getElem hn)⟩
  obtain ⟨es, hrun, held, hheld, hes⟩ := foldlM_ok
    (f := fun es (g : Filing) => Aggregate.file g.found.store es g.found.key g.found.item)
    (fun n es => ∃ held, KeepsFirsts (Among gs SameName) n held ∧
      List.Forall₂ (IsEntry gs n) held es) ⟨[], .nil _, .nil⟩ hstep
  exact ⟨held, es, hheld, hes, by rwa [List.foldlM_map]⟩

end Filing

/-! ## The mapping -/

/-- Filing is a visit that finds a key and files the item. -/
theorem execute_keyBy :
    (keyBy caller a keyOrFn).execute s = (do
      let es ← fold a [] fun es item i => do
        let k ← (Key.of s.store keyOrFn).find caller item i
        Action.look fun r => Aggregate.file r es k item
      Action.make (.dict es)).execute s := by
  unfold keyBy keyOf fold Source.filed
  rw [bind_assoc, Action.execute_get_bind, pure_bind, bind_assoc]

/-- Filing makes a mapping of the entries that filing the visited items one after another gives. -/
theorem keyBy_ok (hfinds : FindsAll caller (Key.of s.store keyOrFn) a fs s t)
    (hfiled : fs.foldlM (fun es f => Aggregate.file f.store es f.key f.item) [] = .ok es) :
    ∃ b u, (keyBy caller a keyOrFn).execute s = (.ok (.ref b), u) ∧ t.Extends u ∧
      u.store.cell? b = some (.dict es) := by
  obtain ⟨w, hrun, hend⟩ := hfinds.execute_fold (fun r es k item => Aggregate.file r es k item) []
  obtain rfl := hend es hfiled
  rw [hfiled] at hrun
  refine ⟨_, _, ?_, (State.grows_alloc w (.dict es)).extends, w.store.cell?_alloc (.dict es)⟩
  rw [execute_keyBy, Action.execute_bind_of_ok hrun]
  rfl

/-- Where filing gives something, each visited item is filed under something. -/
theorem exists_filedAs_of_keyBy {v : Value} {u : State}
    (hfinds : FindsAll caller (Key.of s.store keyOrFn) a fs s t)
    (h : (keyBy caller a keyOrFn).execute s = (.ok v, u)) : ∀ f ∈ fs, ∃ k, f.FiledAs k := by
  obtain ⟨w, hrun, -⟩ := hfinds.execute_fold (fun r es k item => Aggregate.file r es k item) []
  rw [execute_keyBy] at h
  obtain ⟨es, w', hfold, -⟩ := Action.execute_bind_ok h
  rw [hrun] at hfold
  intro f hf
  obtain ⟨es, next, hnext⟩ := exists_of_foldlM_ok (congrArg Prod.fst hfold) f hf
  exact Found.exists_filedAs hnext

/-- Items that are each filed under something can be filed together. -/
theorem exists_filings (h : ∀ f ∈ fs, ∃ k, f.FiledAs k) :
    ∃ gs : List Filing, gs.map Filing.found = fs := by
  induction fs with
  | nil => exact ⟨[], rfl⟩
  | cons f fs ih =>
    obtain ⟨k, hk⟩ := h f List.mem_cons_self
    obtain ⟨gs, hgs⟩ := ih fun g hg => h g (List.mem_cons_of_mem f hg)
    exact ⟨⟨f, k, hk⟩ :: gs, by rw [List.map_cons, hgs]⟩

/-- Filing gives a mapping exactly when each visited item can be filed: when its key, null for a
missing one, can be a key, or is of a kind that can be none and has a text. The names in the mapping
are those that come up first, in order; each item has one of them; and under each name is the last
item with it. Keys at a path that does not break are always found. -/
theorem keyBy_lastOnes (hlists : s.store.Lists a xs) :
    (∀ path : String, Path.Unbroken s xs (.str path) →
      ∃ fs t, FindsAll caller (Key.of s.store (.str path)) a fs s t ∧ s.Extends t ∧
        fs.map Found.item = xs) ∧
    ∀ keyOrFn fs t, FindsAll caller (Key.of s.store keyOrFn) a fs s t →
      ((∃ v u, (keyBy caller a keyOrFn).execute s = (.ok v, u)) ↔ ∀ f ∈ fs, ∃ k, f.FiledAs k) ∧
      ∀ gs : List Filing, gs.map Filing.found = fs →
        ∃ held es b u, (keyBy caller a keyOrFn).execute s = (.ok (.ref b), u) ∧ t.Extends u ∧
          u.store.cell? b = some (.dict es) ∧
          KeepsFirsts (Among gs Filing.SameName) gs.length held ∧
          List.Forall₂ (Filing.IsEntry gs gs.length) held es ∧
          ∀ i < gs.length, i ∈ held ∨ ∃ j ∈ held, j < i ∧ Among gs Filing.SameName j i := by
  refine ⟨fun path => findsAll_path path hlists, fun keyOrFn fs t hfinds => ?_⟩
  have hmapping : ∀ gs : List Filing, gs.map Filing.found = fs →
      ∃ held es b u, (keyBy caller a keyOrFn).execute s = (.ok (.ref b), u) ∧ t.Extends u ∧
        u.store.cell? b = some (.dict es) ∧
        KeepsFirsts (Among gs Filing.SameName) gs.length held ∧
        List.Forall₂ (Filing.IsEntry gs gs.length) held es ∧
        ∀ i < gs.length, i ∈ held ∨ ∃ j ∈ held, j < i ∧ Among gs Filing.SameName j i := by
    rintro gs rfl
    obtain ⟨held, es, hheld, hes, hfold⟩ := Filing.foldlM_file gs
    obtain ⟨b, u, hrun, hu, hcell⟩ := keyBy_ok hfinds hfold
    exact ⟨held, es, b, u, hrun, hu, hcell, hheld, hes, fun i hi => hheld.mem_or_equal hi⟩
  refine ⟨⟨fun ⟨v, u, hrun⟩ => exists_filedAs_of_keyBy hfinds hrun, fun hfiled => ?_⟩, hmapping⟩
  obtain ⟨gs, hgs⟩ := exists_filings hfiled
  obtain ⟨-, -, b, u, hrun, -⟩ := hmapping gs hgs
  exact ⟨_, u, hrun⟩

theorem text_numbersAndLists :
    numbersAndLists.store.text (.ref ⟨6⟩) = .ok "[1]" ∧
      numbersAndLists.store.text (.ref ⟨7⟩) = .ok "[1]" := by
  have htext : ∀ b ∈ [(⟨6⟩ : Address), ⟨7⟩],
      ∃ text, numbersAndLists.store.text (.ref b) = .ok text ∧ text = "[1]" := by decide +kernel
  obtain ⟨_, hsix, rfl⟩ := htext ⟨6⟩ (by decide)
  obtain ⟨_, hseven, rfl⟩ := htext ⟨7⟩ (by decide)
  exact ⟨hsix, hseven⟩

/-- The items of that collection, and what they are filed under. -/
def numbersAndListsFilings : List Filing :=
  [⟨⟨.int 1, .int 1, numbersAndLists.store⟩, .int 1, .key rfl⟩,
    ⟨⟨.ref ⟨6⟩, .ref ⟨6⟩, numbersAndLists.store⟩, .str "[1]", .text rfl text_numbersAndLists.1⟩,
    ⟨⟨.bool true, .bool true, numbersAndLists.store⟩, .bool true, .key rfl⟩,
    ⟨⟨.ref ⟨7⟩, .ref ⟨7⟩, numbersAndLists.store⟩, .str "[1]", .text rfl text_numbersAndLists.2⟩]

/-- Of numbers and lists the last ones are filed, under the first number and under the text of the
lists. -/
theorem keyBy_numbersAndLists :
    ∃ b u, (keyBy apply ⟨5⟩ .null).execute numbersAndLists = (.ok (.ref b), u) ∧
      u.store.cell? b = some (.dict [(.int 1, .bool true), (.str "[1]", .ref ⟨7⟩)]) := by
  have hlists : numbersAndLists.store.Lists ⟨5⟩ [.int 1, .ref ⟨6⟩, .bool true, .ref ⟨7⟩] :=
    ⟨_, rfl, rfl⟩
  obtain ⟨held, es, b, u, hrun, -, hcell, hheld, hes, -⟩ :=
    ((keyBy_lastOnes hlists).2 .null _ _ (findsAll_itself hlists)).2 numbersAndListsFilings rfl
  obtain rfl : held = [0, 1] := hheld.unique (by decide)
  have hfirst : Filing.IsEntry numbersAndListsFilings 4 0 (.int 1, .bool true) :=
    ⟨_, 2, _, rfl, rfl, ⟨by decide, .inr ⟨by decide, by decide⟩, fun m hlow hhigh => by
      obtain rfl : m = 3 := by omega
      decide⟩, rfl⟩
  have hsecond : Filing.IsEntry numbersAndListsFilings 4 1 (.str "[1]", .ref ⟨7⟩) :=
    ⟨_, 3, _, rfl, rfl, ⟨by decide, .inr ⟨by decide, by decide⟩, fun m hlow hhigh => by omega⟩, rfl⟩
  obtain rfl := (Filing.isEntry_rightUnique _ 4).forall₂ hes (.cons hfirst (.cons hsecond .nil))
  exact ⟨b, u, hrun, hcell⟩

/-- A collection of a mapping that holds a tuple of a list. -/
def tupleOfList : State where
  store := { cells := #[
    .policy {},
    .registry {},
    .generator ⟨0⟩,
    .dict [],
    .list [.ref ⟨6⟩],
    .collection
      { list := ⟨4⟩, validators := ⟨3⟩, policy := ⟨0⟩, registry := ⟨1⟩, generator := ⟨2⟩ },
    .dict [(.str "k", .ref ⟨7⟩)],
    .tuple [.ref ⟨8⟩],
    .list [.int 1]] }

/-- A tuple of a list, which has a text but can be no key, is refused as one. -/
theorem keyBy_tupleOfList :
    (∃ e, ((keyBy apply ⟨5⟩ (.str "k")).execute tupleOfList).1 = .error e ∧ e = .fault .type) ∧
      tupleOfList.store.isKey (.ref ⟨7⟩) = false ∧
      ∃ text, tupleOfList.store.text (.ref ⟨7⟩) = .ok text ∧ text = "([1],)" := by
  decide +kernel

end Collection

end Recordset
