import Recordset.Collection.Order
import Recordset.Proofs.Order
import Recordset.Proofs.Sorting.Sort
set_option autoImplicit false

/-!
# Sorting by keys

A sort by keys that are all numbers, or all texts, is stable and sorted by their measures.  Where
there are keys of both kinds two of them are compared at some time, and the sort is refused.
-/

namespace Recordset

/-! ## Sorts by keys -/

namespace Sorting

/-- Elements of one kind stand in any order, and elements of two kinds in none. -/
def Ranking.ofKind {α β : Type} (kind : α → β) : Ranking α where
  before x y := kind x = kind y
  fits x y := kind x = kind y
  fits_of_before h := h
  fits_trans := Eq.trans
  before_of_before_of_fits := Eq.trans
  before_of_fits_of_before := Eq.trans

end Sorting

namespace Collection

open Sorting

variable {s : Store} {d : Direction} {ps : List (Value × Value)}

/-- A sort by keys sorts stably by what the comparison of two keys answers, and where that fails for
want of an order the sort is refused. -/
theorem sortKeyed_settles {r : Ranking (Value × Value)} {E : Error → Prop}
    {D : Value × Value → Prop}
    (hless : ∀ p q, D p → D q → match s.less p.1 q.1 with
      | .ok b => (b = true → r.before p q) ∧ (b = false → r.fits q p)
      | .error e => E e)
    (hD : ∀ p ∈ ps, D p) :
    ∃ qs failure, Settles (r.towards (d == .desc)) E ps qs failure ∧
      (failure = none → sortKeyed s d ps = .ok qs) ∧
      ∀ f, failure = some (.fault f) → f.isType = true →
        sortKeyed s d ps = .error (.refusal (.incomparableKeys f.message)) := by
  have hcompares : Compares .ofResult E r D
      (fun x y => ExceptT.mk (m := Id) (pure (s.less x.1 y.1))) := by
    intro x y hx hy
    have h := hless x y hx hy
    dsimp only
    cases hrun : s.less x.1 y.1 with
    | ok b =>
      rw [hrun] at h
      exact h
    | error e =>
      rw [hrun] at h
      exact h
  have hsettles : (fun result => Settles (r.towards (d == .desc)) E ps result.1 result.2)
      (sortTowards (fun x y => ExceptT.mk (m := Id) (pure (s.less x.1 y.1))) (d == .desc) ps).run :=
    ensures_sortTowards hcompares (d == .desc) hD
  unfold sortKeyed
  dsimp only
  cases hresult : (sortTowards (fun x y => ExceptT.mk (m := Id) (pure (s.less x.1 y.1)))
    (d == .desc) ps).run with
  | mk qs failure =>
    rw [hresult] at hsettles
    refine ⟨qs, failure, hsettles, ?_, ?_⟩
    · rintro rfl
      rfl
    · rintro f rfl htype
      dsimp only
      rw [if_pos htype]

/-- The order of items with keys in a direction. -/
def keyRanking (d : Direction) : Ranking (Value × Value) :=
  (Ranking.ofMeasure fun p => p.1.measure?).towards (d == .desc)

/-- Sorting items whose keys are compared by their measures. -/
theorem sortKeyed_ok (hkeys : (∀ p ∈ ps, p.1.IsNumber) ∨ ∀ p ∈ ps, p.1.IsText) :
    ∃ qs, sortKeyed s d ps = .ok qs ∧ Stable (keyRanking d) ps qs ∧
      (keyRanking d).Sorted qs := by
  have hmeasured : ∀ D : Value → Prop, (∀ p ∈ ps, D p.1) → (∀ v w, D v → D w → v.Ordered w) →
      ∃ qs, sortKeyed s d ps = .ok qs ∧ Stable (keyRanking d) ps qs ∧
        (keyRanking d).Sorted qs := by
    intro D hD hordered
    obtain ⟨qs, failure, hsettles, hok, -⟩ := sortKeyed_settles (s := s) (d := d)
      (r := Ranking.ofMeasure fun p => p.1.measure?) (E := fun _ => False) (D := fun p => D p.1)
      (fun p q hp hq => by
        obtain ⟨m, n, hm, hn, hmn⟩ := hordered p.1 q.1 hp hq
        obtain ⟨b, hrun, hb⟩ := s.compare_of_ordered .less hm hn hmn
        rw [show s.less p.1 q.1 = .ok b from hrun]
        refine And.intro (fun h => ⟨m, n, hm, hn, hb.mp h⟩) fun h => ⟨n, m, hn, hm, ?_⟩
        have hnot : ¬ m < n := fun hlt => Bool.false_ne_true (h.symm.trans (hb.mpr hlt))
        exact hmn.elim (fun hle => (hle.eq_or_lt.resolve_right hnot).ge) id) hD
    cases failure with
    | none => exact ⟨qs, hok rfl, hsettles.stable, hsettles.sorted rfl⟩
    | some e => exact (hsettles.failure e rfl).elim
  rcases hkeys with hnumbers | htexts
  · exact hmeasured _ hnumbers fun v w => Value.IsNumber.ordered
  · exact hmeasured _ htexts fun v w => Value.IsText.ordered

/-- Whether an item has a number for its key. -/
def isNumbered (p : Value × Value) : Bool := p.1.number?.isSome

/-- Where there are numbers and texts among the keys, some two of them are compared. -/
theorem sortKeyed_error (hkinds : ∀ p ∈ ps, (∃ n, p.1.number? = some n) ∨ p.1.IsText)
    (hnumber : ∃ p ∈ ps, ∃ n, p.1.number? = some n) (htext : ∃ p ∈ ps, p.1.IsText) :
    ∃ reason, sortKeyed s d ps = .error (.refusal (.incomparableKeys reason)) := by
  obtain ⟨qs, failure, hsettles, -, herror⟩ := sortKeyed_settles (s := s) (d := d)
    (r := Ranking.ofKind isNumbered) (E := fun e => ∃ f, e = .fault f ∧ f.isType = true)
    (D := fun p => (∃ n, p.1.number? = some n) ∨ p.1.IsText)
    (fun p q hp hq => by
      rcases hp with ⟨m, hm⟩ | ⟨x, hx⟩ <;> rcases hq with ⟨n, hn⟩ | ⟨y, hy⟩
      · have hkind : isNumbered p = isNumbered q := by simp [isNumbered, hm, hn]
        rw [show s.less p.1 q.1 = _ from s.compare_number .less hm hn]
        exact And.intro (fun _ => hkind) fun _ => hkind.symm
      · obtain ⟨left, right, hrun⟩ := s.compare_number_text .less hm y
        rw [hy, show s.less p.1 (.str y) = _ from hrun]
        exact Exists.intro _ ⟨rfl, rfl⟩
      · obtain ⟨left, right, hrun⟩ := s.compare_text_number .less hn x
        rw [hx, show s.less (.str x) q.1 = _ from hrun]
        exact Exists.intro _ ⟨rfl, rfl⟩
      · have hkind : isNumbered p = isNumbered q := by simp [isNumbered, hx, hy, Value.number?]
        rw [hx, hy, show s.less (.str x) (.str y) = _ from s.compare_text .less x y]
        exact And.intro (fun _ => hkind) fun _ => hkind.symm) hkinds
  cases failure with
  | some e =>
    obtain ⟨f, rfl, htype⟩ := hsettles.failure e rfl
    exact ⟨_, herror f rfl htype⟩
  | none =>
    -- A sort that comes to its end has compared neighbours of one kind only.
    have hpairs : qs.Pairwise fun p q => isNumbered p = isNumbered q := by
      have hsorted := hsettles.sorted rfl
      cases d with
      | asc => exact hsorted
      | desc => exact hsorted.imp Eq.symm
    have hsame : ∀ p ∈ qs, ∀ q ∈ qs, isNumbered p = isNumbered q := by
      have : Std.Symm fun p q => isNumbered p = isNumbered q := ⟨fun _ _ => Eq.symm⟩
      intro p hp q hq
      exact List.Pairwise.forall_of_forall (R := fun p q => isNumbered p = isNumbered q)
        (fun _ _ => rfl) hpairs hp hq
    have hmem : ∀ p ∈ ps, p ∈ qs := fun p => hsettles.stable.perm.mem_iff.mp
    obtain ⟨p, hp, n, hn⟩ := hnumber
    obtain ⟨q, hq, t, ht⟩ := htext
    have h := hsame p (hmem p hp) q (hmem q hq)
    simp only [isNumbered, hn, ht] at h
    cases h

end Collection

end Recordset
