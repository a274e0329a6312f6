import Mathlib.Data.Set.Basic
import Mathlib.Logic.Relation
import Recordset.Proofs.Made
import Recordset.Proofs.Parts
set_option autoImplicit false

/-!
# What a value reaches

A value reaches what it is held together by: what its cell holds, the attributes that have been set
on it, the function and the receiver of an extension or a method, and of a function also the values
that its text names, directly or by a variable (`State.Reaches`).

`State.ChangesAt` says of two states, one after the other, that only some cells have been changed.
-/

namespace Recordset

/-! ## What cells hold -/

namespace Expr

mutual

/-- The values that an expression names, by themselves or by a variable. -/
def names (bound : List (String × Value)) : Expr → List Value
  | lit v => [v]
  | .bound name => (bound.lookup name).toList
  | nan | pattern _ _ | hostile | unsteady | arg _ | args | outer _ | raise _ _ => []
  | not e | length e | text e | log e | function _ _ e | recorder _ e | memory e none =>
    names bound e
  | get e f | item e f | binary _ e f | both e f | either e f => names bound e ++ names bound f
  | cond e f g | assign e f g => names bound e ++ names bound f ++ names bound g
  | list es | tuple es | set es | iterator es | collection es | object _ es | custom _ _ es
  | seq es => namesAll bound es
  | dict es fs | frozen es fs => namesAll bound es ++ namesAll bound fs
  | memory e (some (perPage, separator, direction, seed)) =>
    names bound e ++ names bound perPage ++ names bound separator ++ names bound direction ++
      names bound seed
  | call receiver _ es => names bound receiver ++ namesAll bound es

/-- The values that several expressions name. -/
def namesAll (bound : List (String × Value)) : List Expr → List Value
  | [] => []
  | e :: es => names bound e ++ namesAll bound es

end

theorem mem_namesAll {bound : List (String × Value)} {v : Value} {es : List Expr} :
    v ∈ namesAll bound es ↔ ∃ e ∈ es, v ∈ e.names bound := by
  induction es with
  | nil => simp [namesAll]
  | cons e es ih => simp [namesAll, ih]

/-- The values that a part names are named by the whole. -/
theorem names_subset {e p : Expr} (h : p ∈ e.parts) (bound : List (String × Value)) :
    p.names bound ⊆ e.names bound := by
  intro v hv
  unfold parts at h
  split at h
  all_goals
    unfold names
    grind [mem_namesAll]

end Expr

/-- The values that a function names or has been given. -/
def Function.holds (bound : List (String × Value)) : Function → List Value
  | .closure _ body outer => body.names bound ++ outer.getD []
  | .factory check answer =>
    (check.map (Expr.names bound)).getD [] ++
      match answer with
      | .predicate body => body.names bound
      | .value e => e.names bound
  | .predicate body path operand => path :: operand :: body.names bound

/-- The value of an outcome. -/
def Outcome.holds : Outcome → List Value
  | .ok v => [v]
  | .error _ => []

/-- The values that a cell holds, directly or by a variable that a function names. -/
def Cell.holds (bound : List (String × Value)) : Cell → List Value
  | .function f => f.holds bound
  | .registry r => r.parent.toList.map .ref ++ r.table.map (·.2)
  | .builder b =>
    [b.executor, b.validators, b.shown] ++ b.operations.flatMap (fun o => o.shown :: o.parts) ++
      b.execution.toList.flatMap fun e => Outcome.holds e.outcome
  | .executor (.recorder _ value contexts) => value :: contexts
  | .work o => Outcome.holds o
  | c => c.contents

/-- A number, a text or another value that has no parts and nothing to be called. -/
def Value.isSimple : Value → Bool
  | .null | .missing | .bool _ | .int _ | .float _ | .nan _ | .str _ | .bytes _ => true
  | .pattern _ | .builtin _ | .extension _ _ _ | .method _ _ _ | .ref _ => false

namespace State

/-! ## Reaching -/

/-- A value holds another one. -/
inductive PointsTo (s : State) : Value → Value → Prop where
  | part {a : Address} {c : Cell} {v : Value} (h : s.store.cell? a = some c)
    (hv : v ∈ c.holds s.variables) : PointsTo s (.ref a) v
  | mark {v w x : Value} {name : String} (h : (w, name, x) ∈ s.store.marks)
    (hsame : w.same v = true) : PointsTo s v x
  | function (serial : Nat) (f receiver : Value) : PointsTo s (.extension serial f receiver) f
  | receiver (serial : Nat) (f receiver : Value) :
    PointsTo s (.extension serial f receiver) receiver
  | method (serial : Nat) (a : Address) (name : String) :
    PointsTo s (.method serial a name) (.ref a)

/-- A value is another one, or holds something that reaches it. -/
def Reaches (s : State) : Value → Value → Prop := Relation.ReflTransGen s.PointsTo

variable {D E : Set Address} {s t u : State} {v w : Value} {a : Address} {c d : Cell}

theorem Reaches.refl (s : State) (v : Value) : s.Reaches v v := Relation.ReflTransGen.refl

/-- What the cell of a reached value holds is reached. -/
theorem Reaches.part (h : s.Reaches v (.ref a)) (hc : s.store.cell? a = some c)
    (hw : w ∈ c.holds s.variables) : s.Reaches v w := h.tail (.part hc hw)

/-- Where a property passes on to all that is held, nothing without it is reached. -/
theorem Reaches.invariant {P : Value → Prop} (h : s.Reaches v w)
    (hstep : ∀ x y, P x → s.PointsTo x y → P y) (hv : P v) : P w := by
  induction h with
  | refl => exact hv
  | tail _ hlast ih => exact hstep _ _ ih hlast

/-- Without attributes that have been set, a simple value reaches only itself. -/
theorem Reaches.eq_of_simple (h : s.Reaches v w) (hv : v.isSimple = true)
    (hmarks : s.store.marks = []) : w = v := by
  refine h.invariant (P := (· = v)) ?_ rfl
  rintro x y rfl hxy
  cases hxy with
  | mark hmark _ =>
    rw [hmarks] at hmark
    cases hmark
  | part | function | receiver | method => cases hv

/-- Then a cell of simple values reaches besides itself only these. -/
theorem Reaches.of_simple (h : s.Reaches (.ref a) w) (hc : s.store.cell? a = some c)
    (hsimple : ∀ x ∈ c.holds s.variables, x.isSimple = true) (hmarks : s.store.marks = []) :
    w = .ref a ∨ w.isSimple = true := by
  rcases Relation.ReflTransGen.cases_head h with rfl | ⟨x, hx, hrest⟩
  · exact .inl rfl
  · cases hx with
    | part hthere hx =>
      cases hc.symm.trans hthere
      rw [Reaches.eq_of_simple hrest (hsimple x hx) hmarks]
      exact .inr (hsimple x hx)
    | mark hmark _ =>
      rw [hmarks] at hmark
      cases hmark

/-- The cells of a set have been made, and a value reaches none of them. -/
def Avoids (s : State) (v : Value) (D : Set Address) : Prop :=
  ∀ a ∈ D, a.index < s.store.size ∧ ¬ s.Reaches v (.ref a)

theorem Avoids.not_mem (h : s.Avoids v D) : ∀ a, v = .ref a → a ∉ D := by
  rintro a rfl ha
  exact (h a ha).2 (.refl s _)

theorem avoids_empty (s : State) (v : Value) : s.Avoids v ∅ := fun _ h => h.elim

/-! ## Changes at some cells -/

/-- A state comes after another one, and no cell has been changed but some of a set. -/
structure ChangesAt (D : Set Address) (s t : State) : Prop where
  cells : ∀ a c, s.store.cell? a = some c → a ∉ D → t.store.cell? a = some c
  size_le : s.store.size ≤ t.store.size
  marks : t.store.marks = s.store.marks
  bound : t.variables = s.variables

theorem ChangesAt.refl (s : State) : ChangesAt D s s := ⟨fun _ _ h _ => h, Nat.le_refl _, rfl, rfl⟩

theorem ChangesAt.trans (hst : ChangesAt D s t) (htu : ChangesAt D t u) : ChangesAt D s u :=
  ⟨fun a c hc ha => htu.cells a c (hst.cells a c hc ha) ha, hst.size_le.trans htu.size_le,
    htu.marks.trans hst.marks, htu.bound.trans hst.bound⟩

theorem ChangesAt.mono (h : ChangesAt D s t) (hsub : D ⊆ E) : ChangesAt E s t :=
  ⟨fun a c hc ha => h.cells a c hc fun hD => ha (hsub hD), h.size_le, h.marks, h.bound⟩

theorem ChangesAt.grows (h : ChangesAt ∅ s t) : s.Grows t :=
  ⟨fun a c hc => h.cells a c hc id, h.marks⟩

theorem changesAt_alloc (s : State) (c : Cell) :
    ChangesAt D s { s with store := (s.store.alloc c).2 } :=
  have hgrows := grows_alloc s c
  ⟨fun a d hd _ => hgrows.cells a d hd, hgrows.extends.evolves.size_le, rfl, rfl⟩

theorem changesAt_write (s : State) (a : Address) (c : Cell) :
    ChangesAt {a} s { s with store := s.store.write a c } :=
  ⟨fun _ _ hd hb => (Store.cell?_write_of_ne c hb).trans hd,
    Nat.le_of_eq (Array.size_setIfInBounds).symm, rfl, rfl⟩

end State

end Recordset
