import Recordset.Proofs.Collection.Complement
import Recordset.Proofs.Collection.Distinct
set_option autoImplicit false

/-!
# Putting items into buckets

`Collection.groupBy` and `Collection.countBy` put each item into the bucket that its key names, the
one in a collection, the other as one more. A key names the same bucket however often it is found
when finding it leaves what was there as it was (`Collection.NamesKeys`). Then every position is in
one bucket of either (`Collection.bucket`), in order, and the buckets are in the order in which
their names come up.

`Collection.groupBy_agrees` is the main statement.
-/

namespace Recordset

/-- Texts are compared letter by letter. -/
theorem Store.matchesElement_str (r : Store) (x y : String) :
    r.matchesElement (.str x) (.str y) = .ok (x == y) := by
  unfold matchesElement sameOr
  cases hsame : (Value.str x).same (.str y) with
  | true => exact congrArg Except.ok hsame.symm
  | false => rfl

/-- Going on with what is seen in the store is to look at something else there. -/
theorem Action.look_map {α β : Type} (f : Look α) (g : α → β) :
    (do return g (← Action.look f) : Action β) = Action.look fun r => (f r).map g := by
  refine ext_execute fun s => ?_
  rw [execute_bind, execute_look, execute_look]
  cases f s.store <;> rfl

/-! ## Changing one of several buckets -/

namespace Aggregate.Buckets

variable {β : Type} {name : Nat → String} {B : Nat → β} {held : List Nat} {n : String}
  {f : Option β → β}

/-- A new bucket comes after those with other names. -/
theorem change_of_not_mem (h : ∀ j ∈ held, name j ≠ n) :
    change n f (held.map fun j => (name j, B j)) =
      held.map (fun j => (name j, B j)) ++ [(n, f none)] := by
  induction held with
  | nil => rfl
  | cons j held ih =>
    rw [List.map_cons, change, if_neg (h j List.mem_cons_self),
      ih fun i hi => h i (List.mem_cons_of_mem j hi)]
    rfl

/-- The one bucket with a name is changed, where all names differ. -/
theorem change_of_mem (hdistinct : held.Pairwise fun j i => name j ≠ name i)
    (h : ∃ j ∈ held, name j = n) :
    change n f (held.map fun j => (name j, B j)) =
      held.map fun j => (name j, if name j = n then f (some (B j)) else B j) := by
  induction held with
  | nil =>
    obtain ⟨j, hj, -⟩ := h
    cases hj
  | cons j held ih =>
    obtain ⟨hfirst, hdistinct⟩ := List.pairwise_cons.mp hdistinct
    rw [List.map_cons, List.map_cons, change]
    by_cases hj : name j = n
    · rw [if_pos hj, if_pos hj]
      refine congrArg _ (List.map_congr_left fun i hi => ?_)
      rw [if_neg fun hi' => hfirst i hi (hj.trans hi'.symm)]
    · rw [if_neg hj, if_neg hj, ih hdistinct]
      obtain ⟨i, hi, hin⟩ := h
      rcases List.mem_cons.mp hi with rfl | hi
      · exact absurd hin hj
      · exact ⟨i, hi, hin⟩

end Aggregate.Buckets

namespace Collection

open Aggregate

variable {caller : Caller} {key : Key} {a : Address} {c : Collection} {xs : List Value}
  {name : Nat → String} {held : List Nat} {fs : List Found} {i j n : Nat} {s t u : State}
  {keyOrFn : Value}

/-! ## Positions with the same name -/

/-- The positions have the same name. -/
def SameName (name : Nat → String) (j i : Nat) : Prop := name j = name i

instance (name : Nat → String) (j i : Nat) : Decidable (SameName name j i) :=
  inferInstanceAs (Decidable (name j = name i))

/-- The items at those of the first `n` positions that have the name of a position. -/
def bucketUpTo (name : Nat → String) (xs : List Value) (n j : Nat) : List Value :=
  picked (fun i => name i == name j) xs n

/-- The items in the bucket with the name of a position, in order. -/
def bucket (name : Nat → String) (xs : List Value) (j : Nat) : List Value :=
  pick (fun i => name i == name j) xs

/-- What comes out of buckets that are kept by a rule: one for each name that has come up. -/
def bucketsUpTo {β : Type} (g : List Value → β) (name : Nat → String) (xs : List Value)
    (held : List Nat) (n : Nat) : Buckets β :=
  held.map fun j => (name j, g (bucketUpTo name xs n j))

/-- The names of the positions that are kept differ. -/
theorem names_distinct (h : KeepsFirsts (SameName name) n held) :
    held.Pairwise fun j i => name j ≠ name i := by
  refine h.increasing.imp_of_mem fun {j i} hj hi hji => ?_
  exact ((h.mem_iff i).mp hi).2 j hj hji

/-- Each position has the name of one that is kept, and of only one. -/
theorem existsUnique_held (h : KeepsFirsts (SameName name) n held) (hi : i < n) :
    ∃! j, j ∈ held ∧ name j = name i := by
  have hthere : ∃ j ∈ held, name j = name i := by
    rcases h.mem_or_equal hi with hmem | ⟨j, hj, -, hname⟩
    · exact ⟨i, hmem, rfl⟩
    · exact ⟨j, hj, hname⟩
  obtain ⟨j, hj, hname⟩ := hthere
  refine ⟨j, ⟨hj, hname⟩, fun m ⟨hm, hname'⟩ => ?_⟩
  rcases Nat.lt_trichotomy m j with hlt | heq | hlt
  · exact absurd (hname'.trans hname.symm) (((h.mem_iff j).mp hj).2 m hm hlt)
  · exact heq
  · exact absurd (hname.trans hname'.symm) (((h.mem_iff m).mp hm).2 j hj hlt)

/-- Before a name has come up there is nothing in its bucket. -/
theorem bucketUpTo_eq_nil (h : ∀ j < i, name j ≠ name i) : bucketUpTo name xs i i = [] := by
  unfold bucketUpTo picked
  rw [List.filter_eq_nil_iff.mpr fun j hj => ?_]
  · rfl
  · rw [beq_iff_eq]
    exact h j (List.mem_range.mp hj)

/-- An item goes into the bucket with its name, as the last one. -/
theorem bucketUpTo_succ (hi : i < xs.length) :
    bucketUpTo name xs (i + 1) j =
      if name j = name i then bucketUpTo name xs i j ++ [xs[i]] else bucketUpTo name xs i j := by
  unfold bucketUpTo
  split
  next hname => exact picked_succ_of_kept hi (beq_iff_eq.mpr hname.symm)
  next hname => exact picked_succ_of_dropped (beq_eq_false_iff_ne.mpr fun h => hname h.symm)

/-- One more item in the buckets. -/
theorem change_bucketsUpTo {β : Type} {g : List Value → β} {f : Value → Option β → β}
    (hnone : ∀ x, f x none = g [x]) (hsome : ∀ x ys, f x (some (g ys)) = g (ys ++ [x]))
    (h : KeepsFirsts (SameName name) i held) (hi : i < xs.length) :
    ∃ next, KeepsFirsts (SameName name) (i + 1) next ∧
      Buckets.change (name i) (f xs[i]) (bucketsUpTo g name xs held i) =
        bucketsUpTo g name xs next (i + 1) := by
  by_cases hthere : ∃ j ∈ held, name j = name i
  · refine ⟨held, h.drop hthere, ?_⟩
    unfold bucketsUpTo
    rw [Buckets.change_of_mem (names_distinct h) hthere]
    refine List.map_congr_left fun j _ => ?_
    rw [bucketUpTo_succ hi]
    split
    · rw [hsome]
    · rfl
  · have hnew : ∀ j ∈ held, name j ≠ name i := fun j hj hname => hthere ⟨j, hj, hname⟩
    have hbefore : ∀ j < i, name j ≠ name i := by
      intro j hj hname
      obtain ⟨m, ⟨hm, hmj⟩, -⟩ := existsUnique_held h hj
      exact hnew m hm (hmj.trans hname)
    refine ⟨held ++ [i], h.keep hnew, ?_⟩
    unfold bucketsUpTo
    rw [Buckets.change_of_not_mem hnew, List.map_append, List.map_singleton, bucketUpTo_succ hi,
      if_pos rfl, bucketUpTo_eq_nil hbefore, hnone]
    refine congrArg (· ++ _) (List.map_congr_left fun j hj => ?_)
    rw [bucketUpTo_succ hi, if_neg (hnew j hj)]

/-! ## Keys that name buckets -/

/-- A key names a bucket: a missing one the same as null, another one by its text. -/
inductive Names (r : Store) : Value → String → Prop where
  | missing : Names r .missing "None"
  | text {k : Value} {n : String} (hthere : k.isMissing = false) (htext : r.text k = .ok n) :
    Names r k n

theorem Names.bucketName {r : Store} {k : Value} {n : String} (h : Names r k n) :
    Aggregate.bucketName r k = .ok n := by
  cases h with
  | missing => rfl
  | text hthere htext =>
    unfold Aggregate.bucketName
    rw [hthere]
    exact htext

/-- Finding the keys of items is pure: from every later state it leaves one that comes later, and
the key of an item always names the same bucket. -/
def NamesKeys (caller : Caller) (key : Key) (xs : List Value) (name : Nat → String) (s : State) :
    Prop :=
  ∀ t, s.Later t → ∀ i (hi : i < xs.length), ∃ k u,
    (key.find caller xs[i] i).execute t = (.ok k, u) ∧ t.Later u ∧ Names u.store k (name i)

theorem NamesKeys.later (h : NamesKeys caller key xs name s) (ht : s.Later t) :
    NamesKeys caller key xs name t := fun u hu => h u (ht.trans hu)

/-- Keys that name buckets are found in a visit. -/
theorem NamesKeys.findsAll (h : NamesKeys caller key xs name s) (hlists : s.store.Lists a xs) :
    ∃ fs t, FindsAll caller key a fs s t ∧ s.Later t ∧ fs.map Found.item = xs ∧
      ∀ i f, fs[i]? = some f → Names f.store f.key (name i) := by
  refine exists_findsAll s.Later (fun i k r => Names r k (name i))
    (fun t ht => hlists.extends ht.grows.extends) (fun t ht i hi => ?_) (.refl s)
  obtain ⟨k, u, hrun, hu, hname⟩ := h t ht i hi
  exact ⟨k, u, hrun, ht.trans hu, hname⟩

/-- Putting visited items into buckets one after another gives a bucket for each name. -/
theorem foldlM_change {β : Type} {g : List Value → β} {f : Value → Option β → β}
    (hnone : ∀ x, f x none = g [x]) (hsome : ∀ x ys, f x (some (g ys)) = g (ys ++ [x]))
    (hitems : fs.map Found.item = xs)
    (hnames : ∀ i p, fs[i]? = some p → Names p.store p.key (name i)) :
    ∃ held, KeepsFirsts (SameName name) xs.length held ∧
      fs.foldlM (fun bs p => (Aggregate.bucketName p.store p.key).map fun n =>
        Buckets.change n (f p.item) bs) [] =
          .ok (held.map fun j => (name j, g (bucket name xs j))) := by
  subst hitems
  have hstep : ∀ i (hi : i < fs.length) bs, (∃ held, KeepsFirsts (SameName name) i held ∧
      bs = bucketsUpTo g name (fs.map Found.item) held i) →
      ∃ next, (Aggregate.bucketName fs[i].store fs[i].key).map (fun n =>
        Buckets.change n (f fs[i].item) bs) = .ok next ∧
        ∃ held, KeepsFirsts (SameName name) (i + 1) held ∧
          next = bucketsUpTo g name (fs.map Found.item) held (i + 1) := by
    rintro i hi bs ⟨held, hheld, rfl⟩
    have hi' : i < (fs.map Found.item).length := by rwa [List.length_map]
    obtain ⟨next, hnext, hchange⟩ := change_bucketsUpTo hnone hsome hheld hi'
    refine ⟨_, ?_, next, hnext, hchange⟩
    rw [(hnames i fs[i] (List.getElem?_eq_getElem hi)).bucketName, List.getElem_map]
    rfl
  obtain ⟨last, hrun, held, hheld, rfl⟩ := foldlM_ok
    (f := fun bs (p : Found) => (Aggregate.bucketName p.store p.key).map fun n =>
      Buckets.change n (f p.item) bs)
    (fun i bs => ∃ held, KeepsFirsts (SameName name) i held ∧
      bs = bucketsUpTo g name (fs.map Found.item) held i) ⟨[], .nil _, rfl⟩ hstep
  rw [List.length_map]
  refine ⟨held, hheld, hrun.trans ?_⟩
  unfold bucketsUpTo bucketUpTo bucket pick
  rw [List.length_map]

/-- Appends an item to a bucket. -/
def intoBucket (item : Value) (b : Option (List Value)) : List Value := b.getD [] ++ [item]

/-- Counts an item in a bucket. -/
def intoCount (_ : Value) (b : Option Nat) : Nat := b.getD 0 + 1

/-- A visit puts the items into buckets by a rule. -/
def bucketed {β : Type} (caller : Caller) (key : Key) (a : Address) (f : Value → Option β → β) :
    Action (Buckets β) :=
  fold a [] fun bs item i => do
    let k ← key.find caller item i
    Action.look fun r => (Aggregate.bucketName r k).map fun n => Buckets.change n (f item) bs

theorem bucketed_ok {β : Type} {g : List Value → β} {f : Value → Option β → β}
    (hnone : ∀ x, f x none = g [x]) (hsome : ∀ x ys, f x (some (g ys)) = g (ys ++ [x]))
    (hlists : s.store.Lists a xs) (hnames : NamesKeys caller key xs name s) :
    ∃ held t, KeepsFirsts (SameName name) xs.length held ∧ s.Later t ∧
      (bucketed caller key a f).execute s =
        (.ok (held.map fun j => (name j, g (bucket name xs j))), t) := by
  obtain ⟨fs, t, hfinds, ht, hitems, hkeys⟩ := hnames.findsAll hlists
  obtain ⟨held, hheld, hfold⟩ := foldlM_change hnone hsome hitems hkeys
  obtain ⟨u, hrun, hend⟩ := hfinds.execute_fold
    (fun r bs k item => (Aggregate.bucketName r k).map fun n => Buckets.change n (f item) bs) []
  obtain rfl := hend _ hfold
  rw [hfold] at hrun
  exact ⟨held, u, hheld, ht, hrun⟩

theorem execute_groupBy :
    (groupBy caller a keyOrFn).execute s = (do
      let groups ← bucketed caller (Key.of s.store keyOrFn) a intoBucket
      bucketEntries (← groups.mapM fun (p : String × List Value) => do
        return (p.1, ← derived a p.2))).execute s := by
  unfold groupBy keyOf bucketed fold Source.grouped Source.bucketOf
  simp only [Action.look_map]
  rw [bind_assoc, Action.execute_get_bind, pure_bind, bind_assoc]
  rfl

theorem execute_countBy :
    (countBy caller a keyOrFn).execute s = (do
      let counts ← bucketed caller (Key.of s.store keyOrFn) a intoCount
      bucketEntries (counts.map fun (p : String × Nat) => (p.1, .int p.2))).execute s := by
  unfold countBy keyOf bucketed fold Source.counted Source.bucketOf
  simp only [Action.look_map]
  rw [bind_assoc, Action.execute_get_bind, pure_bind, bind_assoc]
  rfl

/-- An entry of grouped items: a name, and a collection of the items in its bucket. -/
def IsGroup (r : Store) (name : Nat → String) (xs : List Value) (j : Nat) (e : Value × Value) :
    Prop :=
  ∃ b, e = (.str (name j), .ref b) ∧ r.Lists b (bucket name xs j)

/-- Grouping gives a mapping of collections, one for each name, in the order in which the names come
up. -/
theorem groupBy_ok (hlists : s.store.Lists a xs)
    (hnames : NamesKeys caller (Key.of s.store keyOrFn) xs name s) :
    ∃ held es b t, KeepsFirsts (SameName name) xs.length held ∧
      (groupBy caller a keyOrFn).execute s = (.ok (.ref b), t) ∧ s.Later t ∧
      t.store.cell? b = some (.dict es) ∧ List.Forall₂ (IsGroup t.store name xs) held es := by
  obtain ⟨held, t, hheld, ht, hrun⟩ := bucketed_ok (g := id) (f := intoBucket) (fun _ => rfl)
    (fun _ _ => rfl) hlists hnames
  simp only [id] at hrun
  obtain ⟨c, hholds⟩ := hlists.extends ht.grows.extends
  obtain ⟨qs, u, hgroups, hu, hqs⟩ := mapM_derived_ok Prod.snd
    (fun (p : String × List Value) v => (p.1, v)) (held.map fun j => (name j, bucket name xs j))
    hholds.cell
  have hmake := u.later_alloc (.dict (qs.map fun q => (.str q.1, q.2)))
  refine ⟨held, _, _, _, hheld, ?_, ht.trans (hu.trans hmake),
    u.store.cell?_alloc _, ?_⟩
  · rw [execute_groupBy, Action.execute_bind_of_ok hrun, Action.execute_bind_of_ok hgroups]
    rfl
  · rw [List.forall₂_map_left_iff] at hqs
    refine List.forall₂_map_right_iff.mpr (hqs.imp fun j q ⟨b, hq, hlists⟩ => ?_)
    subst hq
    exact ⟨b, rfl, hlists.extends hmake.extends⟩

/-- Counting gives a mapping of the numbers of items in the same buckets. -/
theorem countBy_ok (hlists : s.store.Lists a xs)
    (hnames : NamesKeys caller (Key.of s.store keyOrFn) xs name s) :
    ∃ held b t, KeepsFirsts (SameName name) xs.length held ∧
      (countBy caller a keyOrFn).execute s = (.ok (.ref b), t) ∧ s.Extends t ∧
      t.store.cell? b =
        some (.dict (held.map fun j => (.str (name j), .int (bucket name xs j).length))) := by
  have hcount : ∀ x (ys : List Value), intoCount x (some ys.length) = (ys ++ [x]).length := by
    intro x ys
    rw [List.length_append]
    rfl
  obtain ⟨held, t, hheld, ht, hrun⟩ := bucketed_ok (g := List.length) (f := intoCount)
    (fun _ => rfl) hcount hlists hnames
  have hmake := t.grows_alloc (.dict (held.map fun j => (.str (name j),
    .int (bucket name xs j).length)))
  refine ⟨held, _, _, hheld, ?_, (ht.grows.trans hmake).extends, t.store.cell?_alloc _⟩
  rw [execute_countBy, Action.execute_bind_of_ok hrun]
  unfold bucketEntries
  rw [List.map_map, List.map_map]
  rfl

/-- The key that an argument asks for is the same later on. -/
theorem Key.of_later {v : Value} (h : s.Later t) (hv : s.store.Knows v) :
    Key.of t.store v = Key.of s.store v := by
  unfold Key.of
  rw [h.grows.extends.evolves.isCallable hv]

/-- A test that gives the same answer about an item in every later state picks the items about which
it answers yes. -/
theorem filterM_pick {p : Value → Action Bool} :
    ∀ {xs : List Value} {keep : Nat → Bool} {s : State},
      (∀ t, s.Later t → ∀ i (hi : i < xs.length),
        ∃ u, (p xs[i]).execute t = (.ok (keep i), u) ∧ t.Later u) →
      ∃ t, (xs.filterM p).execute s = (.ok (pick keep xs), t) ∧ s.Later t := by
  intro xs
  induction xs with
  | nil => exact fun {keep s} _ => ⟨s, rfl, .refl s⟩
  | cons x xs ih =>
    intro keep s h
    obtain ⟨t, hx, ht⟩ := h s (.refl s) 0 (Nat.zero_lt_succ _)
    have hrest : ∀ w, t.Later w → ∀ i (hi : i < xs.length),
        ∃ u, (p xs[i]).execute w = (.ok (keep (i + 1)), u) ∧ w.Later u := fun w hw i hi =>
      h w (ht.trans hw) (i + 1) (Nat.succ_lt_succ hi)
    obtain ⟨u, hxs, hu⟩ := ih hrest
    rw [List.getElem_cons_zero] at hx
    refine ⟨u, ?_, ht.trans hu⟩
    rw [Action.filterM_cons, Action.execute_bind_of_ok hx, Action.execute_bind_of_ok hxs, pick_cons]
    rfl

/-! ## Texts at a path -/

/-- Each item of a list has a text at a path. -/
def TextsAt (path : String) (xs : List Value) (name : Nat → String) (s : State) : Prop :=
  ∀ i (hi : i < xs.length), ∃ u,
    (Path.value xs[i] (.str path)).execute s = (.ok (.str (name i)), u)

section

variable {path : String} (hwhole : s.Whole) (hroot : s.store.Rooted) (hxs : ∀ x ∈ xs, s.Made x)
  (htexts : TextsAt path xs name s)

include hwhole hroot hxs htexts

/-- The items have these texts in every later state. -/
theorem value_later (ht : s.Later t) (hi : i < xs.length) :
    ∃ u, (Path.value xs[i] (.str path)).execute t = (.ok (.str (name i)), u) ∧ t.Later u := by
  obtain ⟨w, hrun⟩ := htexts i hi
  exact Path.value_later hwhole hroot (hxs xs[i] (List.getElem_mem hi)) trivial hrun ht

/-- Texts at a path name buckets. -/
theorem namesKeys_of_texts : NamesKeys caller (.path (.str path)) xs name s := by
  intro t ht i hi
  obtain ⟨u, hrun, hu⟩ := value_later hwhole hroot hxs htexts ht hi
  exact ⟨_, u, hrun, hu, .text rfl rfl⟩

/-- Of the items with equal texts at a path the first ones are kept. -/
theorem gives_unique_of_texts (hlists : s.store.Lists a xs)
    (hheld : KeepsFirsts (SameName name) xs.length held) (ht : s.Later t) :
    Gives (unique caller a (.str path)) (elementsAt xs held) t := by
  have hfind : ∀ u, t.Later u → ∀ i (hi : i < xs.length), ∃ k w,
      ((Key.path (.str path)).find caller xs[i] i).execute u = (.ok k, w) ∧ t.Later w ∧
        k = .str (name i) := by
    intro u hu i hi
    obtain ⟨w, hrun, hw⟩ := value_later hwhole hroot hxs htexts (ht.trans hu) hi
    exact ⟨_, w, hrun, hu.trans hw, rfl⟩
  obtain ⟨fs, u, hfinds, hu, rfl, hkeys⟩ := exists_findsAll t.Later (fun i k _ => k = .str (name i))
    (fun u hu => hlists.extends (ht.trans hu).grows.extends) hfind (.refl t)
  have hequal : ∀ i j (hi : i < fs.length) (hj : j < fs.length),
      fs[i].store.matchesElement fs[j].key fs[i].key = .ok (name j == name i) := by
    intro i j hi hj
    rw [hkeys i fs[i] (List.getElem?_eq_getElem hi), hkeys j fs[j] (List.getElem?_eq_getElem hj),
      Store.matchesElement_str]
  have hkey : ∀ i (hi : i < fs.length), fs[i].isKey = true := by
    intro i hi
    unfold Found.isKey
    rw [hkeys i fs[i] (List.getElem?_eq_getElem hi)]
    rfl
  have hcompares : fs.Pairwise Found.Compares :=
    List.pairwise_iff_getElem.mpr fun j i hj hi _ => ⟨_, hequal i j hi hj⟩
  obtain ⟨kept, hkept, b, d, w, hrun, hw, hholds, hfields, hfresh⟩ :=
    @unique_ok caller a t u (.str path) fs hfinds hcompares
  have hkin : ∀ j i, j < i → i < fs.length → (Among fs Found.Kin j i ↔ SameName name j i) := by
    intro j i hji hi
    have hj : j < fs.length := Nat.lt_trans hji hi
    refine ⟨fun ⟨p, f, hp, hf, _, hpf⟩ => ?_, fun hname => ?_⟩
    · cases (List.getElem?_eq_getElem hj).symm.trans hp
      cases (List.getElem?_eq_getElem hi).symm.trans hf
      exact beq_iff_eq.mp (Except.ok.inj ((hequal i j hi hj).symm.trans hpf))
    · refine ⟨_, _, List.getElem?_eq_getElem hj, List.getElem?_eq_getElem hi,
        (hkey j hj).trans (hkey i hi).symm, (hequal i j hi hj).trans ?_⟩
      rw [beq_iff_eq.mpr hname]
  rw [List.length_map] at hheld
  obtain rfl := (hkept.congr hkin).unique hheld
  rw [elementsAt_map]
  exact ⟨b, d, w, hrun, hu.grows.extends.trans hw, hholds, hfields,
    Nat.le_trans hu.size_le hfresh⟩

/-- The items that satisfy the equality with a text are those that have it at the path. -/
theorem filterM_satisfies_text (text : String) (ht : s.Later t) :
    ∃ u, (xs.filterM (satisfies path .equal (.str text))).execute t =
      (.ok (pick (fun i => name i == text) xs), u) ∧ t.Later u := by
  refine filterM_pick fun u hu i hi => ?_
  obtain ⟨w, hrun, hw⟩ := value_later hwhole hroot hxs htexts (ht.trans hu) hi
  refine ⟨w, execute_drawing ?_, hw⟩
  rw [Action.execute_bind_of_ok hrun, Action.execute_look]
  rfl

/-- The shorthand for a text keeps the items that have it at the path. -/
theorem gives_select_of_texts (hholds : s.store.Holds a c xs)
    (hown : c.fields.lookup Method.filter.name = none)
    (hpath : Query.isOperatorName path = false) (text : String) (ht : s.Later t) :
    Gives (select caller a [.str path, .str text]) (pick (fun i => name i == text) xs) t := by
  obtain ⟨u, hu, -, hrun⟩ := execute_select_equal (hholds.extends ht.grows.extends) hown hpath
    caller (.str text)
  obtain ⟨w, hfilter, hw⟩ := filterM_satisfies_text hwhole hroot hxs htexts text (ht.trans hu)
  rw [select_pair]
  exact (selects_of_filter (hholds.extends ht.grows.extends) hu hrun hfilter hw).1

end

/-! ## Main statement -/

/-- Grouping and counting by a key whose finding is pure put each position into one bucket, the one
that its key names; the items in a bucket stand in order, and the buckets in the order in which
their names come up. Where the key is a path at which the items have texts, the names are those of
the items that are left when repeated keys are dropped, and, as long as `filter` is the collection's
own, the buckets hold what the shorthand for their names keeps. The calls are made from any states
that come later than one in which the collection and its items were there. -/
theorem groupBy_agrees (hholds : s.store.Holds a c xs) :
    (∀ keyOrFn name, s.store.Knows keyOrFn → NamesKeys caller (Key.of s.store keyOrFn) xs name s →
      ∃ held, KeepsFirsts (SameName name) xs.length held ∧
        (∀ i < xs.length, ∃! j, j ∈ held ∧ name j = name i) ∧
        (∀ t, s.Later t → ∃ es b u, (groupBy caller a keyOrFn).execute t = (.ok (.ref b), u) ∧
          t.Extends u ∧ u.store.cell? b = some (.dict es) ∧
          List.Forall₂ (IsGroup u.store name xs) held es) ∧
        ∀ t, s.Later t → ∃ b u, (countBy caller a keyOrFn).execute t = (.ok (.ref b), u) ∧
          t.Extends u ∧ u.store.cell? b =
            some (.dict (held.map fun j => (.str (name j), .int (bucket name xs j).length)))) ∧
    (∀ path name, Query.isOperatorName path = false → s.Whole → s.store.Rooted →
      TextsAt path xs name s →
      NamesKeys caller (Key.of s.store (.str path)) xs name s ∧
        ∀ held, KeepsFirsts (SameName name) xs.length held → ∀ t, s.Later t →
          Gives (unique caller a (.str path)) (elementsAt xs held) t ∧
          (c.fields.lookup Method.filter.name = none → ∀ j ∈ held,
            Gives (select caller a [.str path, .str (name j)]) (bucket name xs j) t)) := by
  have hlists : ∀ t, s.Later t → t.store.Lists a xs := fun t ht =>
    ⟨c, hholds.extends ht.grows.extends⟩
  refine ⟨fun keyOrFn name hknows hnames => ?_, fun path name hpath hwhole hroot htexts => ?_⟩
  · have hthen : ∀ t, s.Later t → NamesKeys caller (Key.of t.store keyOrFn) xs name t := by
      intro t ht
      rw [Key.of_later ht hknows]
      exact hnames.later ht
    obtain ⟨held, hheld⟩ := KeepsFirsts.exists_keepsFirsts (SameName name) xs.length
    refine ⟨held, hheld, fun i hi => existsUnique_held hheld hi, fun t ht => ?_, fun t ht => ?_⟩
    · obtain ⟨held', es, b, u, hheld', hrun, hu, hgroups⟩ := groupBy_ok (hlists t ht) (hthen t ht)
      obtain rfl := hheld'.unique hheld
      exact ⟨es, b, u, hrun, hu.extends, hgroups⟩
    · obtain ⟨held', b, u, hheld', h⟩ := countBy_ok (hlists t ht) (hthen t ht)
      obtain rfl := hheld'.unique hheld
      exact ⟨b, u, h⟩
  · have hxs : ∀ x ∈ xs, s.Made x := fun x hx => hwhole.made_of_cell? hholds.list hx
    refine ⟨namesKeys_of_texts hwhole hroot hxs htexts, fun held hheld t ht =>
      ⟨?_, fun hown j _ => ?_⟩⟩
    · exact gives_unique_of_texts hwhole hroot hxs htexts ⟨c, hholds⟩ hheld ht
    · exact gives_select_of_texts hwhole hroot hxs htexts hholds hown hpath (name j) ht

/-- A collection of three texts. -/
def threeTexts : State := holding [.str "x", .str "y", .str "x"] everySecond

/-- The three texts, by position. -/
def threeNames (i : Nat) : String := if i = 1 then "y" else "x"

/-- Of three texts two are in one bucket. -/
theorem groupBy_threeTexts :
    (∃ es b u, (groupBy apply ⟨5⟩ (.str "")).execute threeTexts = (.ok (.ref b), u) ∧
      u.store.cell? b = some (.dict es) ∧
      List.Forall₂ (IsGroup u.store threeNames [.str "x", .str "y", .str "x"]) [0, 1] es) ∧
    (∃ b u, (countBy apply ⟨5⟩ (.str "")).execute threeTexts = (.ok (.ref b), u) ∧
      u.store.cell? b = some (.dict [(.str "x", .int 2), (.str "y", .int 1)])) ∧
    Gives (unique apply ⟨5⟩ (.str "")) [.str "x", .str "y"] threeTexts ∧
    Gives (select apply ⟨5⟩ [.str "", .str "x"]) [.str "x", .str "x"] threeTexts := by
  have hholds : threeTexts.store.Holds ⟨5⟩ _ [.str "x", .str "y", .str "x"] := ⟨rfl, rfl⟩
  have hwhole : threeTexts.Whole := ⟨by decide, by decide, by decide⟩
  have hroot : threeTexts.store.Rooted :=
    Store.rooted_of_no_parent (by simp [threeTexts, holding])
  have htexts : TextsAt "" [.str "x", .str "y", .str "x"] threeNames threeTexts := by
    intro i hi
    have hcases : i = 0 ∨ i = 1 ∨ i = 2 := by
      simp at hi
      omega
    rcases hcases with rfl | rfl | rfl <;> exact ⟨_, rfl⟩
  obtain ⟨hbuckets, hagrees⟩ := groupBy_agrees hholds
  obtain ⟨hnames, hlater⟩ := hagrees "" threeNames (by decide +kernel) hwhole hroot htexts
  obtain ⟨held, hheld, -, hgroup, hcount⟩ := hbuckets (.str "") threeNames trivial hnames
  obtain rfl : held = [0, 1] := hheld.unique (by decide)
  obtain ⟨hunique, hselect⟩ := hlater [0, 1] hheld threeTexts (.refl _)
  obtain ⟨es, b, u, hrun, -, hcell, hes⟩ := hgroup threeTexts (.refl _)
  obtain ⟨b', u', hrun', -, hcell'⟩ := hcount threeTexts (.refl _)
  exact ⟨⟨es, b, u, hrun, hcell, hes⟩, ⟨b', u', hrun', hcell'⟩, hunique,
    hselect rfl 0 (by decide)⟩

/-- A collection of two texts in whose `filter` a patch has put a function that measures. -/
def patchedTexts : State where
  store := { cells := #[
    .policy {},
    .registry {},
    .generator ⟨0⟩,
    .dict [],
    .list [.str "x", .str "y"],
    .collection
      { list := ⟨4⟩, validators := ⟨3⟩, policy := ⟨0⟩, registry := ⟨1⟩, generator := ⟨2⟩,
        fields := [("filter", .builtin .len)] }] }

/-- In place of the items in a bucket, the function that a patch has put there gives the number of
entries of the query for its name. -/
theorem select_patchedTexts :
    (∃ sizes, ((do
        let groups ← groupBy apply ⟨5⟩ (.str "")
        let counts ← countBy apply ⟨5⟩ (.str "")
        let kept ← unique apply ⟨5⟩ (.str "")
        [groups, counts, kept].mapM fun v => Action.look (Store.length · v)).execute
          patchedTexts).1 = .ok sizes ∧ sizes = [2, 2, 2]) ∧
    ∃ v, ((select apply ⟨5⟩ [.str "", .str "x"]).execute patchedTexts).1 = .ok v ∧
      v.index? = some 1 := by
  decide +kernel

end Collection

end Recordset
