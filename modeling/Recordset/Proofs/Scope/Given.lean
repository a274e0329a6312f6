import Recordset.Proofs.Scope.Agree
set_option autoImplicit false

/-!
# What some cells have been given

What is at hand in some cells at the start of a run is what they hold, what everyone shares, and
every value that nothing has to be made for; what they have been given is all that this reaches
(`State.Given`).  Together with some of the cells themselves and all that is still to be made it is
a scope (`State.scopeOf`), on which later states agree that keep what has been given as it was
(`State.Keeps`).
-/

namespace Recordset

/-- A value that nothing has to be made for. -/
def Value.isCommon : Value → Bool
  | .ref _ | .extension _ _ _ | .method _ _ _ => false
  | _ => true

namespace State

variable {s t u : State} {bs own D : Set Address} {v w : Value} {a : Address}

/-! ## What has been made -/

/-- A value has been made, whatever it has been given. -/
def IsMade (s : State) : Value → Prop
  | .ref a => a.index < s.store.size
  | .extension serial _ _ | .method serial _ _ => serial < s.serial
  | _ => True

/-- A value has been made, and so has all that it has been given. -/
def IsThere (s : State) : Value → Prop
  | .ref a => a.index < s.store.size
  | .extension serial f receiver => serial < s.serial ∧ s.IsThere f ∧ s.IsThere receiver
  | .method serial a _ => serial < s.serial ∧ a.index < s.store.size
  | _ => True

instance decidableIsThere (s : State) : DecidablePred s.IsThere
  | .ref a => inferInstanceAs (Decidable (a.index < s.store.size))
  | .method serial a _ => inferInstanceAs (Decidable (serial < s.serial ∧ a.index < s.store.size))
  | .extension serial f receiver =>
    have := decidableIsThere s f
    have := decidableIsThere s receiver
    inferInstanceAs (Decidable (serial < s.serial ∧ s.IsThere f ∧ s.IsThere receiver))
  | .null | .missing | .bool _ | .int _ | .float _ | .nan _ | .str _ | .bytes _ | .pattern _
  | .builtin _ => inferInstanceAs (Decidable True)

theorem IsThere.isMade (h : s.IsThere v) : s.IsMade v := by
  cases v with
  | ref a => exact h
  | extension serial f receiver => exact h.1
  | method serial a name => exact h.1
  | _ => trivial

/-- Whether a value has been made is the same for one that is the same. -/
theorem isMade_congr (h : w.same v = true) : s.IsMade w ↔ s.IsMade v := by
  cases w <;> cases v <;> first | exact absurd h Bool.false_ne_true | exact .rfl | skip
  all_goals
    obtain rfl := beq_iff_eq.mp h
    exact .rfl

/-- All that is held in a state has been made. -/
structure Sound (s : State) : Prop where
  cells : ∀ c ∈ s.store.cells.toList, ∀ v ∈ c.holds s.variables, s.IsThere v
  marks : ∀ m ∈ s.store.marks, s.IsThere m.1 ∧ s.IsThere m.2.2
  shared : sharedRegistry.index < s.store.size

/-- What a value holds in a sound state is there. -/
theorem Sound.isThere_of_pointsTo (hs : s.Sound) (hv : s.IsThere v) (h : s.PointsTo v w) :
    s.IsThere w := by
  cases h with
  | part hc hw => exact hs.cells _ (Array.mem_toList_iff.mpr (Array.mem_of_getElem? hc)) _ hw
  | mark hm _ => exact (hs.marks _ hm).2
  | function => exact hv.2.1
  | receiver => exact hv.2.2
  | method => exact hv.2

/-! ## What has been given -/

/-- What is at hand in some cells: what they hold, what all share, and what all have. -/
inductive AtHand (s : State) (bs : Set Address) : Value → Prop where
  | held {b : Address} {v : Value} (hb : b ∈ bs) (h : s.PointsTo (.ref b) v) : AtHand s bs v
  | policy : AtHand s bs (.ref defaultPolicy)
  | registry : AtHand s bs (.ref sharedRegistry)
  | common {v : Value} (hv : v.isCommon = true) : AtHand s bs v

/-- A value that some cells have been given: it is reached from what is at hand in them. -/
def Given (s : State) (bs : Set Address) (v : Value) : Prop :=
  ∃ w, s.AtHand bs w ∧ s.Reaches w v

/-- The cells of what some cells have been given. -/
def given (s : State) (bs : Set Address) : Set Address := {a | s.Given bs (.ref a)}

theorem AtHand.given (h : s.AtHand bs v) : s.Given bs v := ⟨v, h, .refl s v⟩

theorem Given.of_pointsTo (hv : s.Given bs v) (hw : s.PointsTo v w) : s.Given bs w :=
  hv.imp fun _ h => ⟨h.1, h.2.tail hw⟩

section

variable (hs : s.Sound) (hbs : ∀ b ∈ bs, b.index < s.store.size)
include hs hbs

/-- What has been given in a sound state is there. -/
theorem Given.isThere (h : s.Given bs v) : s.IsThere v := by
  obtain ⟨w, hw, hreach⟩ := h
  refine hreach.invariant (fun x y hx hxy => hs.isThere_of_pointsTo hx hxy) ?_
  cases hw with
  | @held b _ hb h =>
    have hthere : s.IsThere (.ref b) := hbs b hb
    exact hs.isThere_of_pointsTo hthere h
  | policy => exact Nat.lt_trans Nat.zero_lt_one hs.shared
  | registry => exact hs.shared
  | common hcommon =>
    cases w with
    | ref | extension | method => cases hcommon
    | _ => trivial

end

/-! ## The scope of what has been given -/

/-- What a run can get at that is started in some cells: these cells, what they and others have been
given, and the cells and the numbers from some on, which are still to be made. -/
def scopeOf (s : State) (bs own : Set Address) (size serial : Nat) : Scope where
  cells := {a | a ∈ s.given bs ∨ a ∈ own ∨ size ≤ a.index}
  extensions := {n | (∃ f receiver, s.Given bs (.extension n f receiver)) ∨ serial ≤ n}
  methods := {n | (∃ a name, s.Given bs (.method n a name)) ∨ serial ≤ n}
  bound := s.variables
  default_mem := .inl AtHand.policy.given
  shared_mem := .inl AtHand.registry.given

theorem has_of_given {size serial : Nat} (h : s.Given bs v) :
    (s.scopeOf bs own size serial).Has v := by
  induction v with
  | ref a => exact .inl h
  | extension serial f receiver ihf ihreceiver =>
    exact ⟨.inl ⟨f, receiver, h⟩, ihf (h.of_pointsTo (.function serial f receiver)),
      ihreceiver (h.of_pointsTo (.receiver serial f receiver))⟩
  | method serial a name =>
    exact ⟨.inl ⟨a, name, h⟩, .inl (h.of_pointsTo (.method serial a name))⟩
  | _ => trivial

/-- Some cells are in a state as they were, and attributes have been set on nothing but what has
been made since. -/
structure Keeps (D : Set Address) (s t : State) : Prop where
  cells : ∀ a ∈ D, t.store.cell? a = s.store.cell? a
  marks : ∃ new, t.store.marks = new ++ s.store.marks ∧ ∀ m ∈ new, ¬ s.IsMade m.1 ∧ t.IsMade m.1

theorem Keeps.refl (D : Set Address) (s : State) : Keeps D s s :=
  ⟨fun _ _ => rfl, [], rfl, by simp⟩

section

variable (hs : s.Sound) (hbs : ∀ b ∈ bs, b.index < s.store.size) (hown : own ⊆ bs)
  (hv : (s.scopeOf bs own t.store.size t.serial).Has v)
include hs hown hv

include hbs in
/-- What is in the scope was made at the start, or is still to be made. -/
theorem isMade_or_of_has : s.IsMade v ∨ ¬ t.IsMade v := by
  cases v with
  | ref a =>
    rcases hv with hgiven | hmem | hnew
    · exact .inl (Given.isThere hs hbs hgiven)
    · exact .inl (hbs a (hown hmem))
    · exact .inr (Nat.not_lt.mpr hnew)
  | extension serial f receiver =>
    rcases hv.1 with ⟨g, other, hgiven⟩ | hnew
    · exact .inl (Given.isThere hs hbs hgiven).1
    · exact .inr (Nat.not_lt.mpr hnew)
  | method serial a name =>
    rcases hv.1 with ⟨b, other, hgiven⟩ | hnew
    · exact .inl (Given.isThere hs hbs hgiven).1
    · exact .inr (Nat.not_lt.mpr hnew)
  | _ => exact .inl trivial

include hbs in
/-- What is in the scope has the attributes that it had. -/
theorem Keeps.marksOf_eq (h : Keeps D s t) : t.store.marksOf v = s.store.marksOf v := by
  obtain ⟨new, hmarks, hnew⟩ := h.marks
  have hnone : new.reverse.filter (fun m => m.1.same v) = [] := by
    refine List.filter_eq_nil_iff.mpr fun m hm hsame => ?_
    obtain ⟨hbefore, hafter⟩ := hnew m (List.mem_reverse.mp hm)
    rcases isMade_or_of_has hs hbs hown hv with hmade | hmade
    · exact hbefore ((isMade_congr hsame).mpr hmade)
    · exact hmade ((isMade_congr hsame).mp hafter)
  unfold Store.marksOf
  rw [hmarks, List.reverse_append, List.filter_append, hnone, List.append_nil]

/-- What an attribute of the scope was set to has been given. -/
theorem given_of_mark (hsize : s.store.size ≤ t.store.size) (hserial : s.serial ≤ t.serial)
    {m : Value × String × Value} (hm : m ∈ s.store.marks) (hsame : m.1.same v = true) :
    s.Given bs m.2.2 := by
  have hmade : s.IsMade v := (isMade_congr hsame).mp (hs.marks m hm).1.isMade
  have hpoints : ∀ {w : Value}, m.1.same w = true → s.PointsTo w m.2.2 := fun h => .mark hm h
  cases v with
  | ref a =>
    rcases hv with hgiven | hmem | hnew
    · exact Given.of_pointsTo hgiven (hpoints hsame)
    · exact (AtHand.held (hown hmem) (hpoints hsame)).given
    · exact absurd (Nat.lt_of_lt_of_le hmade hsize) (Nat.not_lt.mpr hnew)
  | extension serial f receiver =>
    rcases hv.1 with ⟨g, other, hgiven⟩ | hnew
    · refine hgiven.of_pointsTo (hpoints ?_)
      cases hfirst : m.1 <;> rw [hfirst] at hsame <;> exact hsame
    · exact absurd (Nat.lt_of_lt_of_le hmade hserial) (Nat.not_lt.mpr hnew)
  | method serial a name =>
    rcases hv.1 with ⟨b, other, hgiven⟩ | hnew
    · refine hgiven.of_pointsTo (hpoints ?_)
      cases hfirst : m.1 <;> rw [hfirst] at hsame <;> exact hsame
    · exact absurd (Nat.lt_of_lt_of_le hmade hserial) (Nat.not_lt.mpr hnew)
  | _ => exact (AtHand.common rfl).given.of_pointsTo (hpoints hsame)

end

section

variable (hs : s.Sound) (hbs : ∀ b ∈ bs, b.index < s.store.size) (hown : own ⊆ bs)
  (ht : Keeps (s.given bs ∪ own) s t) (hsize : s.store.size ≤ t.store.size)
  (hserial : s.serial ≤ t.serial)
include hs hbs hown ht hsize hserial

/-- The scope is closed in a later state that keeps what has been given. -/
theorem closed_scopeOf : (s.scopeOf bs own t.store.size t.serial).Closed t.store where
  fresh a ha := .inr (.inr ha)
  cells := by
    intro a c ha hc
    refine fun v hv => has_of_given ?_
    rcases ha with hgiven | hmem | hnew
    · rw [ht.cells a (.inl hgiven)] at hc
      exact Given.of_pointsTo hgiven (.part hc hv)
    · rw [ht.cells a (.inr hmem)] at hc
      exact (AtHand.held (hown hmem) (.part hc hv)).given
    · have hnone : t.store.cell? a = none := Array.getElem?_eq_none hnew
      rw [hnone] at hc
      cases hc
  marks := by
    intro v hv
    rw [ht.marksOf_eq hs hbs hown hv]
    intro mark hmark
    obtain ⟨m, hm, rfl⟩ := List.mem_map.mp hmark
    obtain ⟨hm, hsame⟩ := List.mem_filter.mp hm
    exact ⟨trivial, has_of_given
      (given_of_mark hs hown hv hsize hserial (List.mem_reverse.mp hm) hsame)⟩

/-- Two later states that keep what has been given, and have as many cells and serial numbers,
agree on the scope. -/
theorem agree_scopeOf (hu : Keeps (s.given bs ∪ own) s u) (hsizes : u.store.size = t.store.size)
    (hserials : u.serial = t.serial) (hbound : t.variables = s.variables)
    (hbound' : u.variables = s.variables) : (s.scopeOf bs own t.store.size t.serial).Agree u t where
  size := hsizes
  cells := by
    intro a ha
    rcases ha with hgiven | hmem | hnew
    · rw [hu.cells a (.inl hgiven), ht.cells a (.inl hgiven)]
    · rw [hu.cells a (.inr hmem), ht.cells a (.inr hmem)]
    · have hnone : t.store.cell? a = none := Array.getElem?_eq_none hnew
      have hnone' : u.store.cell? a = none := Array.getElem?_eq_none (hsizes.trans_le hnew)
      rw [hnone, hnone']
  marks := by
    intro v hv
    have hv' : (s.scopeOf bs own u.store.size u.serial).Has v := by rwa [hsizes, hserials]
    rw [ht.marksOf_eq hs hbs hown hv, hu.marksOf_eq hs hbs hown hv']
  closed := closed_scopeOf hs hbs hown ht hsize hserial
  serial := hserials
  numbers n hn := ⟨.inr hn, .inr hn⟩
  bound_left := hbound'
  bound_right := hbound

end

end State

end Recordset
