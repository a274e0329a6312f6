import Mathlib.Data.Finset.Card
import Recordset.Proofs.Equality
import Recordset.Proofs.Patching
set_option autoImplicit false

/-!
# Trees of data

Data made of null, truth values, whole numbers, texts, lists, tuples and mappings by name is a
tree, which a value of the store shows (`Store.Shows`).  Trees are identical when they are the same
as data: the order of the names of a mapping is no part of it, a truth value is no number, and a
list is no tuple.

Values are equal exactly when the trees which they show are identical once every truth value in
them is taken for the number that it counts as (`Store.Shows.decides_equal`).  Identical trees are
those which in addition have truth values at the same places (`Tree.eq_iff`).
-/

namespace Recordset

/-- The kinds of sequences that hold data. -/
inductive Sequence where
  | list
  | tuple
  deriving DecidableEq

/-- The cell of a sequence. -/
def Sequence.cell : Sequence → List Value → Cell
  | list, xs => .list xs
  | tuple, xs => .tuple xs

/-- A tree of data. -/
inductive Tree where
  | null
  | flag (b : Bool)
  | number (n : Int)
  | text (t : String)
  | sequence (kind : Sequence) (length : Nat) (items : Fin length → Tree)
  | mapping (names : Finset String) (values : {name // name ∈ names} → Tree)

namespace Tree

/-- A step from a tree to a part of it. -/
inductive Step where
  | position (i : Nat)
  | name (t : String)

/-- The tree has a truth value at a place. -/
def FlagAt : List Step → Tree → Prop
  | [], flag _ => True
  | .position i :: rest, sequence _ n items => ∃ h : i < n, FlagAt rest (items ⟨i, h⟩)
  | .name t :: rest, mapping names values => ∃ h : t ∈ names, FlagAt rest (values ⟨t, h⟩)
  | _, _ => False

/-- The tree in which truth values are taken for the numbers that they count as. -/
def counted : Tree → Tree
  | flag b => number (if b then 1 else 0)
  | sequence kind n items => sequence kind n fun i => (items i).counted
  | mapping names values => mapping names fun name => (values name).counted
  | t => t

variable {d e : Tree}

/-! ## Identical trees -/

theorem sequence_eq_iff {kind kind' : Sequence} {n n' : Nat} {items : Fin n → Tree}
    {items' : Fin n' → Tree} :
    sequence kind n items = sequence kind' n' items' ↔
      kind = kind' ∧ n = n' ∧ ∀ i (h : i < n) (h' : i < n'), items ⟨i, h⟩ = items' ⟨i, h'⟩ := by
  constructor
  · intro h
    cases h
    exact ⟨rfl, rfl, fun _ _ _ => rfl⟩
  · rintro ⟨rfl, rfl, h⟩
    exact congrArg _ (funext fun i => h i i.isLt i.isLt)

theorem mapping_eq_iff {names names' : Finset String} {values : {name // name ∈ names} → Tree}
    {values' : {name // name ∈ names'} → Tree} :
    mapping names values = mapping names' values' ↔
      names = names' ∧ ∀ name h h', values ⟨name, h⟩ = values' ⟨name, h'⟩ := by
  constructor
  · intro h
    cases h
    exact ⟨rfl, fun _ _ _ => rfl⟩
  · rintro ⟨rfl, h⟩
    exact congrArg _ (funext fun name => h name name.2 name.2)

/-- Trees have truth values at the same places. -/
def SameFlags (d e : Tree) : Prop := ∀ place, d.FlagAt place ↔ e.FlagAt place

/-- Data with truth values at the same places, and identical apart from those, is identical. -/
theorem eq_of_counted (hflags : d.SameFlags e) (hcounted : d.counted = e.counted) : d = e := by
  induction d generalizing e with
  | null | text t =>
    cases e with
    | flag | sequence | mapping => cases hcounted
    | _ => exact hcounted
  | flag b =>
    cases e with
    | flag c =>
      have hnumber := Tree.number.inj hcounted
      cases b <;> cases c <;> first | rfl | cases hnumber
    | number n => exact ((hflags []).mp trivial).elim
    | _ => cases hcounted
  | number n =>
    cases e with
    | flag b => exact ((hflags []).mpr trivial).elim
    | sequence | mapping => cases hcounted
    | _ => exact hcounted
  | sequence kind n items ih =>
    cases e with
    | sequence kind' n' items' =>
      obtain ⟨rfl, rfl, hitems⟩ := sequence_eq_iff.mp hcounted
      refine sequence_eq_iff.mpr ⟨rfl, rfl, fun i hi _ => ih ⟨i, hi⟩ (fun place => ?_) ?_⟩
      · have hplace := hflags (.position i :: place)
        simpa only [FlagAt, hi, exists_true_left] using hplace
      · exact hitems i hi hi
    | _ => cases hcounted
  | mapping names values ih =>
    cases e with
    | mapping names' values' =>
      obtain ⟨rfl, hvalues⟩ := mapping_eq_iff.mp hcounted
      refine mapping_eq_iff.mpr ⟨rfl, fun name h _ => ih ⟨name, h⟩ (fun place => ?_) ?_⟩
      · have hplace := hflags (.name name :: place)
        simpa only [FlagAt, h, exists_true_left] using hplace
      · exact hvalues name h h
    | _ => cases hcounted

/-- Trees are identical exactly when they have truth values at the same places and are otherwise
equal. -/
theorem eq_iff : d = e ↔ d.SameFlags e ∧ d.counted = e.counted :=
  ⟨fun h => h ▸ ⟨fun _ => .rfl, rfl⟩, fun h => eq_of_counted h.1 h.2⟩

end Tree

namespace Store

/-- A value shows a tree. -/
inductive Shows (s : Store) : Value → Tree → Prop where
  | null : Shows s .null .null
  | flag (b : Bool) : Shows s (.bool b) (.flag b)
  | number (n : Int) : Shows s (.int n) (.number n)
  | text (t : String) : Shows s (.str t) (.text t)
  | sequence {a : Address} {kind : Sequence} {xs : List Value} {items : Fin xs.length → Tree}
    (hcell : s.cell? a = some (kind.cell xs)) (hitems : ∀ i, Shows s xs[i] (items i)) :
    Shows s (.ref a) (.sequence kind xs.length items)
  | mapping {a : Address} {fields : List (String × Value)}
    {values : {name // name ∈ (fields.map Prod.fst).toFinset} → Tree}
    (hcell : s.cell? a = some (.dict (Entries.named fields)))
    (hnames : (fields.map Prod.fst).Nodup)
    (hvalues : ∀ f ∈ fields, ∀ h, Shows s f.2 (values ⟨f.1, h⟩)) :
    Shows s (.ref a) (.mapping (fields.map Prod.fst).toFinset values)

variable {s : Store} {v w : Value} {d e : Tree} {eq : Value → Value → Except Error Bool}
  {xs ys : List Value} {r : Except Error Bool} {p q : Prop}

/-- What is among the entries by name is a name or a value. -/
theorem mem_named {fields : List (String × Value)}
    (hw : w ∈ (Entries.named fields).flatMap fun e => [e.1, e.2]) :
    ∃ f ∈ fields, w = .str f.1 ∨ w = f.2 := by
  unfold Entries.named at hw
  rw [List.flatMap_map] at hw
  obtain ⟨f, hf, hw⟩ := List.mem_flatMap.mp hw
  simp only [List.mem_cons, List.not_mem_nil, or_false] at hw
  exact ⟨f, hf, hw⟩

/-- The nesting of data ends. -/
theorem Shows.ends (h : s.Shows v d) : s.Ends v := by
  induction h with
  | null | flag | number | text => exact ends_of_no_view rfl
  | @sequence a kind xs items hcell hitems ih =>
    refine .intro _ fun w hw => ?_
    obtain ⟨c, hc, hw⟩ := hw
    cases hc.symm.trans hcell
    have hmem : w ∈ xs := by
      cases kind <;> exact hw
    obtain ⟨i, hi, rfl⟩ := List.getElem_of_mem hmem
    exact ih ⟨i, hi⟩
  | @mapping a fields values hcell hnames hvalues ih =>
    refine .intro _ fun w hw => ?_
    obtain ⟨c, hc, hw⟩ := hw
    cases hc.symm.trans hcell
    obtain ⟨f, hf, rfl | rfl⟩ := mem_named hw
    · exact ends_of_no_view rfl
    · exact ih f hf (List.mem_toFinset.mpr (List.mem_map_of_mem hf))

theorem cell_injective {kind kind' : Sequence} (h : kind.cell xs = kind'.cell ys) :
    kind = kind' ∧ xs = ys := by
  cases kind <;> cases kind' <;> cases h <;> exact ⟨rfl, rfl⟩

theorem cell_ne_dict {kind : Sequence} {es : Entries} : kind.cell xs ≠ .dict es := by
  cases kind <;> exact nofun

theorem named_injective {fields more : List (String × Value)}
    (h : Entries.named fields = Entries.named more) : fields = more := by
  refine List.map_injective_iff.mpr ?_ h
  intro f g hfg
  obtain ⟨hname, hvalue⟩ := Prod.mk.inj hfg
  exact Prod.ext (Value.str.inj hname) hvalue

/-- A value shows one tree only. -/
theorem Shows.unique (h : s.Shows v d) (h' : s.Shows v e) : d = e := by
  induction h generalizing e with
  | null | flag | number | text =>
    cases h'
    rfl
  | @sequence a kind xs items hcell hitems ih =>
    cases h' with
    | sequence hcell' hitems' =>
      obtain ⟨rfl, rfl⟩ := cell_injective (Option.some.inj (hcell.symm.trans hcell'))
      exact Tree.sequence_eq_iff.mpr ⟨rfl, rfl, fun i hi _ => ih ⟨i, hi⟩ (hitems' ⟨i, hi⟩)⟩
    | mapping hcell' _ _ =>
      exact absurd (Option.some.inj (hcell.symm.trans hcell')) cell_ne_dict
  | @mapping a fields values hcell hnames hvalues ih =>
    cases h' with
    | sequence hcell' hitems' =>
      exact absurd (Option.some.inj (hcell'.symm.trans hcell)) cell_ne_dict
    | mapping hcell' _ hvalues' =>
      obtain rfl := named_injective (Cell.dict.inj (Option.some.inj (hcell.symm.trans hcell')))
      refine Tree.mapping_eq_iff.mpr ⟨rfl, fun name hname _ => ?_⟩
      obtain ⟨f, hf, rfl⟩ := List.mem_map.mp (List.mem_toFinset.mp hname)
      exact ih f hf hname (hvalues' f hf hname)

/-! ## Comparisons -/

theorem Decides.sameOr (h : Decides (eq v w) p) (hsame : v.same w = true → p) :
    Decides (sameOr eq v w) p := by
  unfold Store.sameOr
  split
  · rename_i heq
    exact ⟨true, rfl, iff_of_true rfl (hsame heq)⟩
  · exact h

/-- A comparison that is made only after one that holds decides both together. -/
theorem Decides.and {more : Except Error Bool} (h : Decides r p) (hmore : p → Decides more q) :
    Decides (do if ← r then more else return false) (p ∧ q) := by
  obtain ⟨b, rfl, hb⟩ := h
  cases b with
  | false => exact decides_false fun hpq => Bool.false_ne_true (hb.mpr hpq.1)
  | true =>
    have hp := hb.mp rfl
    exact (hmore hp).congr (and_iff_right hp).symm

theorem decides_allEqual {P : Nat → Prop}
    (h : ∀ i (hi : i < xs.length) (hi' : i < ys.length), Decides (eq xs[i] ys[i]) (P i)) :
    Decides (allEqual eq xs ys) (∀ i, i < xs.length → i < ys.length → P i) := by
  induction xs generalizing ys P with
  | nil => exact ⟨true, rfl, iff_of_true rfl nofun⟩
  | cons x xs ih =>
    cases ys with
    | nil => exact ⟨true, rfl, iff_of_true rfl nofun⟩
    | cons y ys =>
      have hfirst : Decides (eq x y) (P 0) := h 0 (Nat.succ_pos _) (Nat.succ_pos _)
      have hrest := @ih ys (fun i => P (i + 1)) fun i hi hi' =>
        h (i + 1) (Nat.succ_lt_succ hi) (Nat.succ_lt_succ hi')
      refine (hfirst.and fun _ => hrest).congr ⟨?_, ?_⟩
      · rintro ⟨hzero, hsucc⟩ (_ | i) hi hi'
        · exact hzero
        · exact hsucc i (Nat.lt_of_succ_lt_succ hi) (Nat.lt_of_succ_lt_succ hi')
      · exact fun hall => ⟨hall 0 (Nat.succ_pos _) (Nat.succ_pos _), fun i hi hi' =>
          hall (i + 1) (Nat.succ_lt_succ hi) (Nat.succ_lt_succ hi')⟩

/-- Two lists are compared element by element. -/
theorem decides_itemsEqual {P : Nat → Prop}
    (h : ∀ i (hi : i < xs.length) (hi' : i < ys.length), Decides (sameOr eq xs[i] ys[i]) (P i)) :
    Decides (itemsEqual eq xs ys)
      (xs.length = ys.length ∧ ∀ i, i < xs.length → i < ys.length → P i) := by
  unfold itemsEqual
  split
  · rename_i hlength
    exact (decides_allEqual h).congr (and_iff_right hlength).symm
  · rename_i hlength
    exact decides_false fun hall => hlength hall.1

/-- Two sequences of one kind are compared element by element, two of different kinds by their
addresses. -/
theorem decides_sequences {items : Collection → List Value} {kind kind' : Sequence} {same : Bool}
    {P : Nat → Prop} (hsame : same = true → kind = kind')
    (h : ∀ i (hi : i < xs.length) (hi' : i < ys.length), Decides (sameOr eq xs[i] ys[i]) (P i)) :
    Decides (cellsEqual items eq same (kind.cell xs) (kind'.cell ys))
      (kind = kind' ∧ xs.length = ys.length ∧ ∀ i, i < xs.length → i < ys.length → P i) := by
  have hother : kind ≠ kind' → Decides (.ok same) (kind = kind' ∧ xs.length = ys.length ∧
      ∀ i, i < xs.length → i < ys.length → P i) := by
    intro hkind
    cases same with
    | false => exact decides_false fun hall => hkind hall.1
    | true => exact absurd (hsame rfl) hkind
  cases kind with
  | list =>
    cases kind' with
    | list => exact (decides_itemsEqual h).congr (and_iff_right rfl).symm
    | tuple => exact hother nofun
  | tuple =>
    cases kind' with
    | list => exact hother nofun
    | tuple =>
      -- A tuple is walked through before the lengths are looked at.
      obtain ⟨b, hrun, hb⟩ := decides_allEqual h
      refine ⟨b && xs.length == ys.length, ?_, ?_⟩
      · show (allEqual (sameOr eq) xs ys >>= _) = _
        rw [hrun]
        rfl
      · rw [Bool.and_eq_true, beq_iff_eq, hb, and_comm]
        exact (and_iff_right rfl).symm

/-! ## Mappings by name -/

theorem succeeds_names (fuel : Nat) (name other : String) :
    succeeds (sameOr (s.equalAt fuel) (.str name) (.str other)) = (name == other) := by
  have hsame : Value.same (.str name) (.str other) = (name == other) := rfl
  unfold sameOr
  split
  · rename_i hname
    exact (hsame.symm.trans hname).symm
  · rename_i hname
    have hother := Bool.eq_false_iff.mpr hname
    rw [← hsame, hother]
    cases fuel with
    | zero => rfl
    | succ fuel => exact hother

/-- Under a name stands the first value that has it. -/
theorem findBy_named (fuel : Nat) (fields : List (String × Value)) (name : String) :
    findBy (s.equalAt fuel) (Entries.named fields) (.str name) = fields.lookup name := by
  unfold findBy Entries.named
  induction fields with
  | nil => rfl
  | cons f fields ih =>
    rw [List.map_cons, List.find?_cons, succeeds_names, List.lookup_cons, Bool.beq_comm]
    cases name == f.1 with
    | true => rfl
    | false => exact ih

theorem mem_of_lookup {fields : List (String × Value)} {name : String}
    (h : fields.lookup name = some w) : (name, w) ∈ fields := by
  obtain ⟨before, after, rfl, -⟩ := List.lookup_eq_some_iff.mp h
  simp

/-- All entries by name of one mapping are in another one. -/
theorem decides_entriesWithin {fuel : Nat} {fields more : List (String × Value)}
    {P : String → Prop} (h : ∀ f ∈ fields, ∀ w, more.lookup f.1 = some w →
      Decides (sameOr (s.equalAt fuel) w f.2) (P f.1)) :
    Decides (entriesWithin (s.equalAt fuel) (Entries.named more) (Entries.named fields))
      (∀ name ∈ fields.map Prod.fst, name ∈ more.map Prod.fst ∧ P name) := by
  induction fields with
  | nil => exact ⟨true, rfl, iff_of_true rfl nofun⟩
  | cons f fields ih =>
    have hrest := ih fun g hg => h g (List.mem_cons_of_mem f hg)
    have hfound := findBy_named (s := s) fuel more f.1
    have hcons : Entries.named (f :: fields) = (.str f.1, f.2) :: Entries.named fields := rfl
    rw [hcons, entriesWithin, hfound, List.map_cons]
    cases hw : more.lookup f.1 with
    | none =>
      refine decides_false fun hall => ?_
      obtain ⟨g, hg, hname⟩ := List.mem_map.mp (hall f.1 List.mem_cons_self).1
      have hne := List.lookup_eq_none_iff.mp hw g hg
      rw [hname] at hne
      simp at hne
    | some w =>
      have hmem : f.1 ∈ more.map Prod.fst :=
        List.mem_map.mpr ⟨(f.1, w), mem_of_lookup hw, rfl⟩
      refine ((h f List.mem_cons_self w hw).and fun _ => hrest).congr ?_
      rw [List.forall_mem_cons, and_iff_right hmem]

/-- Two mappings by name are compared name by name, in whichever order the names are. -/
theorem decides_mappings {fuel : Nat} {fields more : List (String × Value)}
    (hnames : (fields.map Prod.fst).Nodup) (hmore : (more.map Prod.fst).Nodup)
    {P : String → Prop} (h : ∀ f ∈ fields, ∀ g ∈ more, f.1 = g.1 →
      Decides (sameOr (s.equalAt fuel) g.2 f.2) (P f.1)) :
    Decides (entriesEqual (s.equalAt fuel) (Entries.named fields) (Entries.named more))
      ((fields.map Prod.fst).toFinset = (more.map Prod.fst).toFinset ∧
        ∀ name ∈ fields.map Prod.fst, P name) := by
  have hlength : ∀ fs : List (String × Value), (Entries.named fs).length = fs.length := fun fs =>
    List.length_map _
  have hcard : ∀ fs : List (String × Value), (fs.map Prod.fst).Nodup →
      (fs.map Prod.fst).toFinset.card = fs.length := fun fs hfs =>
    (List.toFinset_card_of_nodup hfs).trans (List.length_map _)
  unfold entriesEqual
  rw [hlength, hlength]
  split
  · rename_i hsize
    refine (decides_entriesWithin (P := P) fun f hf w hw =>
      h f hf (f.1, w) (mem_of_lookup hw) rfl).congr ?_
    constructor
    · intro hall
      refine ⟨Finset.eq_of_subset_of_card_le (fun name hname => ?_) ?_, fun name hname => ?_⟩
      · exact List.mem_toFinset.mpr (hall name (List.mem_toFinset.mp hname)).1
      · rw [hcard fields hnames, hcard more hmore, hsize]
      · exact (hall name hname).2
    · rintro ⟨hsame, hall⟩ name hname
      exact ⟨List.mem_toFinset.mp (hsame ▸ List.mem_toFinset.mpr hname), hall name hname⟩
  · rename_i hsize
    refine decides_false fun hall => hsize ?_
    rw [← hcard fields hnames, ← hcard more hmore, hall.1]

/-! ## Equality -/

/-- The cell of data is one of a sequence or a mapping. -/
theorem Shows.not_hostile (h : s.Shows v d) : s.view v ≠ some .hostile := by
  intro hview
  cases h with
  | @sequence a kind xs items hcell _ =>
    cases kind <;> cases hview.symm.trans hcell
  | mapping hcell _ _ => cases hview.symm.trans hcell
  | _ => cases hview

/-- Two numbers are equal when they count as the same. -/
theorem Shows.decides_numbers {m n : Number} (hv : s.Shows v d) (hw : s.Shows w e)
    (hm : v.number? = some m) (hn : w.number? = some n) (fuel : Nat) :
    Decides (s.equalAt (fuel + 1) v w) (d.counted = e.counted) := by
  have hrun : s.equalAt (fuel + 1) v w = .ok (Number.equal m n) := by
    unfold equalAt
    rw [hm, hn]
    rfl
  have hint : ∀ k l : Int, Number.equal (.int k) (.int l) = true ↔ k = l := fun k l => by
    simp [Number.equal, Number.compare?]
  refine ⟨_, hrun, ?_⟩
  cases hv <;> cases hm <;> cases hw <;> cases hn <;>
    exact (hint _ _).trans (Tree.number.injEq _ _ ▸ Iff.rfl)

/-- Data of which not both are numbers, and not both have cells, is equal when it is the same. -/
theorem Shows.decides_same (hv : s.Shows v d) (hw : s.Shows w e)
    (hnumber : v.number? = none ∨ w.number? = none) (hnone : s.view v = none ∨ s.view w = none)
    (fuel : Nat) : Decides (s.equalAt (fuel + 1) v w) (d.counted = e.counted) := by
  have hrun : s.equalAt (fuel + 1) v w = .ok (simpleEqual v w) := by
    unfold equalAt
    split
    · rename_i hm hn
      rcases hnumber with hnumber | hnumber
      · cases hnumber.symm.trans hm
      · cases hnumber.symm.trans hn
    · split
      · exact absurd ‹_› hv.not_hostile
      · exact absurd ‹_› hw.not_hostile
      · rename_i hc hd
        rcases hnone with hnone | hnone
        · cases hnone.symm.trans hc
        · cases hnone.symm.trans hd
      · rfl
  refine ⟨_, hrun, ?_⟩
  cases hv <;> cases hw <;> simp_all [simpleEqual, Value.same, Tree.counted, Value.number?, view]

/-- The same value has the same cell. -/
theorem cell_eq_of_same {a b : Address} {c c' : Cell} (ha : s.view (.ref a) = some c)
    (hb : s.view (.ref b) = some c') (h : Value.same (.ref a) (.ref b) = true) : c = c' := by
  obtain rfl : a = b := beq_iff_eq.mp h
  exact Option.some.inj (ha.symm.trans hb)

/-- A sequence is equal to no mapping. -/
theorem decides_equalAt_kinds {fuel : Nat} {a b : Address} {kind : Sequence} {es : Entries}
    (ha : s.view (.ref a) = some (kind.cell xs)) (hb : s.view (.ref b) = some (.dict es))
    (hp : ¬ p) : Decides (s.equalAt (fuel + 1) (.ref a) (.ref b)) p ∧
      Decides (s.equalAt (fuel + 1) (.ref b) (.ref a)) p := by
  have hthere : Value.same (.ref a) (.ref b) = false :=
    Bool.eq_false_iff.mpr fun hsame => cell_ne_dict (cell_eq_of_same ha hb hsame)
  have hback : Value.same (.ref b) (.ref a) = false := (Value.same_comm _ _).trans hthere
  rw [equalAt_of_view ha hb, equalAt_of_view hb ha, hthere, hback]
  cases kind <;> exact ⟨decides_false hp, decides_false hp⟩

/-- Two sequences are compared by the trees of their elements. -/
theorem decides_equalAt_sequences {fuel : Nat} {a b : Address} {kind kind' : Sequence}
    {items : Fin xs.length → Tree} {items' : Fin ys.length → Tree}
    (ha : s.view (.ref a) = some (kind.cell xs)) (hb : s.view (.ref b) = some (kind'.cell ys))
    (h : ∀ i j, Decides (sameOr (s.equalAt fuel) xs[i] ys[j])
      ((items i).counted = (items' j).counted)) :
    Decides (s.equalAt (fuel + 1) (.ref a) (.ref b))
      ((Tree.sequence kind xs.length items).counted =
        (Tree.sequence kind' ys.length items').counted) := by
  have hkind : Value.same (.ref a) (.ref b) = true → kind = kind' := fun hsame =>
    (cell_injective (cell_eq_of_same ha hb hsame)).1
  rw [equalAt_of_view ha hb]
  refine (decides_sequences hkind (P := fun i => ∀ (hi : i < xs.length) (hi' : i < ys.length),
    (items ⟨i, hi⟩).counted = (items' ⟨i, hi'⟩).counted) fun i hi hi' => ?_).congr ?_
  · exact (h ⟨i, hi⟩ ⟨i, hi'⟩).congr ⟨fun heq _ _ => heq, fun heq => heq hi hi'⟩
  · rw [Tree.counted, Tree.counted, Tree.sequence_eq_iff]
    exact and_congr_right fun _ => and_congr_right fun _ =>
      ⟨fun hall i hi hi' => hall i hi hi' hi hi', fun hall i hi hi' _ _ => hall i hi hi'⟩

/-- Two mappings by name are compared by the trees of their values. -/
theorem decides_equalAt_mappings {fuel : Nat} {a b : Address} {fields more : List (String × Value)}
    {values : {name // name ∈ (fields.map Prod.fst).toFinset} → Tree}
    {values' : {name // name ∈ (more.map Prod.fst).toFinset} → Tree}
    (ha : s.view (.ref a) = some (.dict (Entries.named fields)))
    (hb : s.view (.ref b) = some (.dict (Entries.named more)))
    (hnames : (fields.map Prod.fst).Nodup) (hmore : (more.map Prod.fst).Nodup)
    (h : ∀ f ∈ fields, ∀ g ∈ more, f.1 = g.1 → ∀ hf hg,
      Decides (sameOr (s.equalAt fuel) g.2 f.2)
        ((values ⟨f.1, hf⟩).counted = (values' ⟨g.1, hg⟩).counted)) :
    Decides (s.equalAt (fuel + 1) (.ref a) (.ref b))
      ((Tree.mapping _ values).counted = (Tree.mapping _ values').counted) := by
  have hmem : ∀ {fs : List (String × Value)} {f}, f ∈ fs → f.1 ∈ (fs.map Prod.fst).toFinset :=
    fun hf => List.mem_toFinset.mpr (List.mem_map_of_mem hf)
  rw [equalAt_of_view ha hb]
  refine (decides_mappings hnames hmore (P := fun name => ∀ hf hg,
    (values ⟨name, hf⟩).counted = (values' ⟨name, hg⟩).counted) fun f hf g hg hname => ?_).congr ?_
  · obtain ⟨name, v⟩ := f
    obtain ⟨other, w⟩ := g
    obtain rfl : name = other := hname
    have hhere := hmem hf
    have hthere := hmem hg
    exact (h _ hf _ hg rfl hhere hthere).congr
      ⟨fun heq _ _ => heq, fun heq => heq hhere hthere⟩
  · rw [Tree.counted, Tree.counted, Tree.mapping_eq_iff]
    exact and_congr_right fun _ => ⟨fun hall name hf hg =>
      hall name (List.mem_toFinset.mp hf) hf hg, fun hall name _ hf hg => hall name hf hg⟩

theorem Shows.eq_of_same (hv : s.Shows v d) (h : v.same w = true) : v = w := by
  cases hv <;> cases w <;> simp_all [Value.same]

theorem mem_inner_sequence {items : Collection → List Value} (kind : Sequence) (i : Fin xs.length) :
    xs[i] ∈ (kind.cell xs).inner items := by
  cases kind <;> exact List.getElem_mem i.isLt

theorem mem_inner_mapping {items : Collection → List Value} {fields : List (String × Value)}
    {f : String × Value} (hf : f ∈ fields) :
    f.2 ∈ (Cell.dict (Entries.named fields)).inner items := by
  refine List.mem_flatMap.mpr ⟨(.str f.1, f.2), List.mem_map_of_mem hf, ?_⟩
  exact List.mem_cons_of_mem _ List.mem_cons_self

/-- Values are compared by the trees which they show, with truth values taken for numbers, within a
bound that is large enough for one of the two. -/
theorem Shows.decides_equalAt {fuel : Nat} (hv : s.Shows v d) (hw : s.Shows w e)
    (h : NestsWithin s.WalksInto fuel v ∨ NestsWithin s.WalksInto fuel w) :
    Decides (s.equalAt fuel v w) (d.counted = e.counted) := by
  induction fuel generalizing v w d e with
  | zero => exact h.elim False.elim False.elim
  | succ fuel ih =>
    have hinner : ∀ {x y : Value} {f g : Tree}, s.Shows x f → s.Shows y g →
        NestsWithin s.WalksInto fuel x ∨ NestsWithin s.WalksInto fuel y →
        Decides (sameOr (s.equalAt fuel) x y) (f.counted = g.counted) := by
      intro x y f g hx hy hbound
      refine (ih hx hy hbound).sameOr fun hsame => ?_
      obtain rfl := hx.eq_of_same hsame
      rw [hx.unique hy]
    by_cases hnone : s.view v = none ∨ s.view w = none
    · cases hm : v.number? with
      | none => exact hv.decides_same hw (.inl hm) hnone fuel
      | some m =>
        cases hn : w.number? with
        | none => exact hv.decides_same hw (.inr hn) hnone fuel
        | some n => exact hv.decides_numbers hw hm hn fuel
    · obtain ⟨hthere, hthere'⟩ := not_or.mp hnone
      cases hv with
      | @sequence a kind xs items hcell hitems =>
        cases hw with
        | @sequence b kind' ys items' hcell' hitems' =>
          refine decides_equalAt_sequences hcell hcell' fun i j => ?_
          refine hinner (hitems i) (hitems' j) (h.imp (fun h => ?_) fun h => ?_)
          · exact h _ ⟨_, hcell, mem_inner_sequence kind i⟩
          · exact h _ ⟨_, hcell', mem_inner_sequence kind' j⟩
        | mapping hcell' _ _ => exact (decides_equalAt_kinds hcell hcell' nofun).1
        | _ => exact absurd rfl hthere'
      | @mapping a fields values hcell hnames hvalues =>
        cases hw with
        | sequence hcell' _ => exact (decides_equalAt_kinds hcell' hcell nofun).2
        | @mapping b more values' hcell' hmore hvalues' =>
          refine decides_equalAt_mappings hcell hcell' hnames hmore fun f hf g hg _ hf' hg' => ?_
          refine (hinner (hvalues' g hg hg') (hvalues f hf hf')
            (h.symm.imp (fun h => ?_) fun h => ?_)).congr eq_comm
          · exact h _ ⟨_, hcell', mem_inner_mapping hg⟩
          · exact h _ ⟨_, hcell, mem_inner_mapping hf⟩
        | _ => exact absurd rfl hthere'
      | _ => exact absurd rfl hthere

/-! ## Main statement -/

/-- Values that show trees are equal exactly when the trees are identical with every truth value
taken for the number that it counts as. -/
theorem Shows.decides_equal (hv : s.Shows v d) (hw : s.Shows w e) :
    Decides (s.equal v w) (d.counted = e.counted) :=
  hv.decides_equalAt hw (.inl hv.ends.nestsWithin)

end Store

end Recordset
