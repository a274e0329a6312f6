import Recordset.Extension.Registry
import Recordset.Proofs.Scope.Value
import Recordset.Query.Compile
import Recordset.Query.Shorthand
set_option autoImplicit false

/-!
# Queries within a scope

Registering extensions, reading policies, calling callbacks, compiling queries and testing items
stay within a scope when calls do.
-/

namespace Recordset

open Recordset.Action Recordset.Scope

variable {sc : Scope} {v w : Value} {a : Address} {xs args : List Value} {es : Entries}

/-! ## Registries -/

namespace Scope

variable {s t : Store}

theorem SameStore.chainAt (h : sc.SameStore s t) : ∀ (fuel : Nat) {a : Address}, sc.Has a →
    Registry.chainAt s fuel a = Registry.chainAt t fuel a := by
  intro fuel
  induction fuel with
  | zero => exact fun _ => rfl
  | succ fuel ih =>
    intro a ha
    unfold Registry.chainAt
    rw [h.cells ha]
    split
    · rename_i r hc
      have hr : sc.Has r := has_cell_registry.mp (h.closed.cells ha hc)
      cases hparent : r.parent with
      | none => rfl
      | some p => exact congrArg (r :: ·) (ih (hr.1 p hparent))
    · rfl

theorem Closed.chainAt (h : sc.Closed s) : ∀ (fuel : Nat) {a : Address}, sc.Has a →
    sc.Has (Registry.chainAt s fuel a) := by
  intro fuel
  induction fuel with
  | zero => exact fun _ => has_nil sc
  | succ fuel ih =>
    intro a ha
    unfold Registry.chainAt
    split
    · rename_i r hc
      have hr : sc.Has r := has_cell_registry.mp (h.cells ha hc)
      refine has_cons.mpr ⟨hr, ?_⟩
      split
      · rename_i p hp
        exact ih (hr.1 p hp)
      · exact has_nil sc
    · exact has_nil sc

theorem SameStore.chain (h : sc.SameStore s t) (ha : sc.Has a) :
    Registry.chain s a = Registry.chain t a := by
  unfold Registry.chain
  rw [h.depth]
  exact h.chainAt _ ha

theorem SameStore.lookup (h : sc.SameStore s t) (ha : sc.Has a) (name : String) :
    Registry.lookup s a name = Registry.lookup t a name := by
  unfold Registry.lookup
  rw [h.chain ha]

theorem Closed.lookup (h : sc.Closed s) (ha : sc.Has a) (name : String) :
    sc.Has (Registry.lookup s a name) := by
  intro f hf
  obtain ⟨r, hr, hf⟩ := List.exists_of_findSome?_eq_some hf
  exact has_get? ((h.chainAt _ ha).mem hr) name f hf

theorem SameStore.reservedNames (h : sc.SameStore s t) (ha : sc.Has a) :
    Registry.reservedNames s a = Registry.reservedNames t a := by
  unfold Registry.reservedNames
  rw [h.chain ha]

theorem SameStore.names (h : sc.SameStore s t) (ha : sc.Has a) :
    Registry.names s a = Registry.names t a := by
  unfold Registry.names
  rw [h.chain ha]

end Scope

namespace Registry

@[grind ←]
theorem has_insert {r : Registry} (hr : sc.Has r) (name : String) (hv : sc.Has v) :
    sc.Has (r.insert name v) := by
  obtain ⟨hparent, htable⟩ := has_registry_iff.mp hr
  unfold insert
  split
  · refine ⟨hparent, has_map fun e he => ?_⟩
    have he : sc.Has e := htable.mem he
    split
    · exact ⟨has_inert sc _, hv⟩
    · exact he
  · exact ⟨hparent, has_append.mpr ⟨htable, has_cons.mpr ⟨⟨has_inert sc _, hv⟩, has_nil sc⟩⟩⟩

@[grind ←]
theorem within_read (ha : sc.Has a) : Within sc (read a) := by
  unfold read
  grind

@[grind ←]
theorem within_register (ha : sc.Has a) (hv : sc.Has v) (hw : sc.Has w) :
    Within sc (register a v w) := by
  have hinvalid : ∀ shown : Except Error String,
      Within sc
        (Action.ofExcept shown >>= fun t => (Action.refuse (.invalidName t) : Action Unit)) :=
    fun shown => within_bind (within_ofExcept (has_inert sc _)) fun t _ => within_refuse _
  unfold register
  refine within_get_eq fun s t h => ⟨?_, ?_⟩
  · dsimp only
    rw [h.shown hv, h.isCallable hw, h.kind hw, h.reservedNames ha]
  · dsimp only
    split
    · split
      · exact hinvalid _
      · split
        · exact within_refuse _
        · refine Action.within_alongChain ha ?_
          split
          · exact within_refuse _
          · refine within_bind (within_read ha) fun r hr => ?_
            have hwrite := fun name =>
              within_write ha (has_cell_registry.mpr (has_insert hr name hw))
            split
            · exact within_bind (within_warn _) fun _ _ => hwrite _
            · exact hwrite _
    · exact hinvalid _

@[grind ←]
theorem within_reserveAll (ha : sc.Has a) (names : List String) :
    Within sc (reserveAll a names) := by
  unfold reserveAll
  refine Action.within_alongChain ha (within_get_eq fun s t h => ⟨?_, ?_⟩)
  · dsimp only
    rw [h.names ha]
  · dsimp only
    split
    · refine within_bind (within_read ha) fun r hr => within_write ha ?_
      exact has_cell_registry.mpr hr
    · exact within_refuse _

@[grind ←]
theorem within_make {parent : Option Address} (hparent : sc.Has parent) (reserved : List String) :
    Within sc (make parent reserved) :=
  within_alloc (has_cell_registry.mpr ⟨hparent, has_nil sc⟩)

end Registry

/-! ## Policies -/

namespace Policy

@[grind ←]
theorem within_make {perPage separator direction seed : Value} (hperPage : sc.Has perPage)
    (hseparator : sc.Has separator) (hdirection : sc.Has direction) (hseed : sc.Has seed) :
    Within sc (make perPage separator direction seed) := by
  unfold make
  refine within_bind (within_compare .less hperPage (has_int sc 1)) fun low _ => ?_
  split
  · exact within_bind (within_look fun _ _ h => ⟨h.text hperPage, has_inert sc _⟩) fun _ _ =>
      within_refuse _
  · refine within_bind (within_look fun _ _ h => ⟨h.directionNamed? hdirection, has_inert sc _⟩)
      fun found _ => ?_
    split
    · exact within_pure ⟨hperPage, hseparator, hseed⟩
    · exact within_bind (within_look fun _ _ h => ⟨h.shown hdirection, has_inert sc _⟩) fun _ _ =>
        within_refuse _

end Policy

/-! ## Callbacks -/

namespace Callback

theorem positional?_eq {s t : Store} (h : sc.SameStore s t) :
    ∀ {v : Value}, sc.Has v → positional? s v = positional? t v := by
  intro v hv
  induction v with
  | extension serial f receiver hf _ =>
    unfold positional?
    rw [hf (has_extension.mp hv).2.1]
  | method serial a name =>
    unfold positional?
    rw [h.cells (has_method.mp hv).2]
  | ref a =>
    unfold positional?
    rw [h.view hv]
  | _ => rfl

theorem arity_eq {s t : Store} (h : sc.SameStore s t) (hv : sc.Has v) : arity s v = arity t v := by
  unfold arity
  rw [positional?_eq h hv]

section

variable {caller : Caller} (hcaller : WithinCaller sc caller)
include hcaller

@[grind ←]
theorem within_call (hv : sc.Has v) (offered : Nat) (hargs : sc.Has args) :
    Within sc (call caller v offered args) := by
  unfold call isNarrow
  refine within_get_eq fun s t h => ⟨?_, ?_⟩
  · dsimp only
    rw [arity_eq h.toSameStore hv]
  · dsimp only
    split
    · exact hcaller v _ hv (hargs.take _)
    · exact hcaller v _ hv hargs

end

end Callback

/-! ## Expressions -/

namespace Expression

mutual
/-- The values that an expression is made of. -/
def values : Expression → List Value
  | all parts => valuesAll parts
  | not inner => values inner
  | always => []
  | term path _ operand => [path, operand]
  | custom path _ f => [path, f]
  | predicate f => [f]

/-- The values that several expressions are made of. -/
def valuesAll : List Expression → List Value
  | [] => []
  | e :: es => values e ++ valuesAll es
end

instance : Scoped Expression := ⟨fun sc e => sc.Has e.values⟩

section

variable {e inner : Expression} {parts : List Expression} {path operand f : Value}

theorem has_values_iff : sc.Has (valuesAll parts) ↔ sc.Has parts := by
  induction parts with
  | nil => exact ⟨fun _ => has_nil sc, fun _ => has_nil sc⟩
  | cons e parts ih =>
    rw [valuesAll, has_append, has_cons, ih]
    exact .rfl

@[grind =]
theorem has_all : sc.Has (all parts) ↔ sc.Has parts := by
  show sc.Has (values (all parts)) ↔ _
  rw [values]
  exact has_values_iff

@[grind =]
theorem has_not : sc.Has (not inner) ↔ sc.Has inner := by
  show sc.Has (values (not inner)) ↔ _
  rw [values]
  exact .rfl

@[grind ←]
theorem has_always (sc : Scope) : sc.Has always := by
  show sc.Has (values always)
  rw [values]
  exact has_nil sc

@[grind =]
theorem has_term {op : Operator} :
    sc.Has (term path op operand) ↔ sc.Has path ∧ sc.Has operand := by
  show sc.Has (values (term path op operand)) ↔ _
  simp [values]

@[grind =]
theorem has_custom {symbol : String} :
    sc.Has (custom path symbol f) ↔ sc.Has path ∧ sc.Has f := by
  show sc.Has (values (custom path symbol f)) ↔ _
  simp [values]

@[grind =]
theorem has_predicate : sc.Has (predicate f) ↔ sc.Has f := by
  show sc.Has (values (predicate f)) ↔ _
  simp [values]

theorem has_parts (he : sc.Has e) : sc.Has e.parts := by
  unfold Expression.parts
  split
  · exact has_all.mp he
  · exact has_cons.mpr ⟨he, has_nil sc⟩

theorem has_negate (he : sc.Has e) : sc.Has e.negate := by
  unfold negate
  split
  · exact has_not.mp he
  · exact has_not.mpr he

end

mutual
theorem has_optimize : ∀ {e : Expression}, sc.Has e → sc.Has e.optimize
  | .all parts, he => by
    rw [optimize]
    exact has_all.mpr (has_optimizeParts (has_all.mp he))
  | .not inner, he => by
    rw [optimize]
    exact has_negate (has_optimize (has_not.mp he))
  | .always, he | .term _ _ _, he | .custom _ _ _, he | .predicate _, he => he

theorem has_optimizeParts : ∀ {parts : List Expression}, sc.Has parts →
    sc.Has (optimizeParts parts)
  | [], h => h
  | e :: es, h => by
    obtain ⟨he, hes⟩ := has_cons.mp h
    rw [optimizeParts]
    exact has_append.mpr ⟨has_parts (has_optimize he), has_optimizeParts hes⟩
end

@[grind ←]
theorem within_truthOf (hv : sc.Has v) : Within sc (truthOf v) :=
  within_get_eq fun _ _ h => ⟨by rw [h.truth hv], within_pure (has_inert sc _)⟩

end Expression

/-! ## Operators -/

namespace Operator

section

variable {s t : Store} (h : sc.SameStore s t) (hv : sc.Has v) (hw : sc.Has w)
include h hv hw

theorem strictEqual_eq : strictEqual s v w = strictEqual t v w := by
  unfold strictEqual
  rw [h.equal hv hw]

theorem ordered_eq (c : Comparison) : ordered s c v w = ordered t c v w := by
  unfold ordered
  rw [h.compare c hv hw]

theorem holds_eq : Operator.holds s v w = Operator.holds t v w := by
  have hcontainer : isContainer s v = isContainer t v := by
    unfold isContainer
    rw [h.view hv]
  unfold Operator.holds
  rw [hcontainer, h.elements hv]
  split
  · rfl
  · split
    · split
      · rename_i xs hxs
        have hxs : sc.Has xs := h.closed.elements hv xs hxs
        exact congrArg _ (any_congr fun x hx => strictEqual_eq h (hxs.mem hx) hw)
      · rfl
    · rfl

theorem test_eq (op : Operator) : op.test s v w = op.test t v w := by
  unfold test
  rw [strictEqual_eq h hv hw, ordered_eq h hv hw, ordered_eq h hv hw, ordered_eq h hv hw,
    ordered_eq h hv hw, holds_eq h hv hw, h.elements hw]
  split
  case h_6 =>
    split
    · rfl
    · refine except_bind_congr fun xs hxs => ?_
      have hxs : sc.Has xs := h.closed.elements hw xs hxs
      rw [any_congr fun x hx => strictEqual_eq h hv (hxs.mem hx)]
  all_goals rfl

end

@[grind ←]
theorem within_prepare (op : Operator) (hv : sc.Has v) : Within sc (op.prepare v) := by
  unfold prepare
  split
  · refine within_get_eq fun s t h => ⟨?_, ?_⟩
    · dsimp only
      rw [h.isMapping hv, h.isIterable hv, h.kind hv]
    · refine iteInduction (motive := Within sc) (fun _ => within_refuse _) fun _ => ?_
      exact within_bind (within_iterate hv) fun xs hxs => within_make (has_cell_list.mpr hxs)
  · exact within_pure hv

end Operator

/-! ## Testing items -/

namespace Expression

variable {caller : Caller} (hcaller : WithinCaller sc caller)

mutual
theorem within_test {caller : Caller} (hcaller : WithinCaller sc caller) {item : Value}
    (hitem : sc.Has item) (index : Int) : ∀ {e : Expression}, sc.Has e →
    Within sc (e.test caller item index)
  | .all parts, he => by
    rw [test]
    exact within_testAll hcaller hitem index (has_all.mp he)
  | .not inner, he => by
    rw [test]
    exact within_bind (within_test hcaller hitem index (has_not.mp he)) fun _ _ =>
      within_pure (has_inert sc _)
  | .always, _ => by
    rw [test]
    exact within_pure (has_inert sc _)
  | .term path op operand, he => by
    obtain ⟨hpath, hoperand⟩ := has_term.mp he
    rw [test]
    refine within_bind (Path.within_value hitem hpath) fun source hsource => ?_
    exact within_look fun _ _ h => ⟨Operator.test_eq h hsource hoperand op, has_inert sc _⟩
  | .custom path symbol f, he => by
    rw [test]
    refine within_bind (hcaller f _ (has_custom.mp he).2 ?_) fun w hw => within_truthOf hw
    exact has_cons.mpr ⟨hitem, has_nil sc⟩
  | .predicate f, he => by
    rw [test]
    refine within_bind (Callback.within_call hcaller (has_predicate.mp he) 2 ?_) fun w hw =>
      within_truthOf hw
    exact has_cons.mpr ⟨hitem, has_cons.mpr ⟨has_int sc _, has_nil sc⟩⟩

theorem within_testAll {caller : Caller} (hcaller : WithinCaller sc caller) {item : Value}
    (hitem : sc.Has item) (index : Int) : ∀ {parts : List Expression}, sc.Has parts →
    Within sc (testAll caller item index parts)
  | [], _ => by
    rw [testAll]
    exact within_pure (has_inert sc _)
  | e :: es, h => by
    obtain ⟨he, hes⟩ := has_cons.mp h
    rw [testAll]
    refine within_bind (within_test hcaller hitem index he) fun b _ => ?_
    split
    · exact within_testAll hcaller hitem index hes
    · exact within_pure (has_inert sc _)
end

attribute [grind ←] within_test within_testAll

end Expression

/-! ## Compiling queries -/

namespace Query

theorem has_conjunction {parts : List Expression} (hparts : sc.Has parts) :
    sc.Has (conjunction parts) := by
  unfold conjunction
  split
  · exact (has_cons.mp hparts).1
  · exact Expression.has_all.mpr hparts

theorem has_assemble {parts : List Expression} (hparts : sc.Has parts) :
    sc.Has (assemble parts) := by
  unfold assemble
  split
  · exact Expression.has_always sc
  · exact (has_cons.mp hparts).1
  · exact Expression.has_optimize (Expression.has_all.mpr hparts)

@[grind ←]
theorem within_operators? (hv : sc.Has v) : Within sc (operators? v) := by
  unfold operators?
  refine within_get_bind fun s t h => ?_
  dsimp only
  rw [h.entries? hv]
  split
  · exact (within_pure (has_none sc)).from h
  · rename_i es hes
    have hes : sc.Has es := h.closed.entries? hv es hes
    rw [mapM_congr fun e he => h.shown (has_fst (hes.mem he))]
    refine Within.from ?_ h
    split
    · exact within_pure (has_none sc)
    · split
      · exact within_pure (has_some.mpr hes)
      · exact within_bind (within_ofExcept (has_inert sc _)) fun _ _ => within_refuse _

@[grind ←]
theorem within_factory? (symbol : String) (hv : sc.Has v) : Within sc (factory? symbol v) := by
  unfold factory?
  refine within_get_bind fun s t h => ?_
  dsimp only
  rw [h.entries? hv]
  split
  · exact (within_pure (has_none sc)).from h
  · rename_i es hes
    have hes : sc.Has es := h.closed.entries? hv es hes
    have hfound := fun name => has_find? (s := t.store) hes (.str name)
    rw [h.find? (has_str sc _) hes, h.find? (has_str sc _) hes]
    refine Within.from ?_ h
    split
    · exact within_pure (has_none sc)
    · refine within_pure ?_
      split
      · rename_i f hf
        exact hf ▸ hfound symbol
      · exact hfound _

theorem within_compileEach {compile : Value → Value → Action Expression}
    (hcompile : ∀ key v, sc.Has key → sc.Has v → Within sc (compile key v)) (hes : sc.Has es) :
    Within sc (compileEach compile es) := by
  induction es with
  | nil => exact within_pure (has_nil sc)
  | cons e rest ih =>
    obtain ⟨he, hrest⟩ := has_cons.mp hes
    refine within_bind (hcompile _ _ (has_fst he) (has_snd he)) fun d hd => ?_
    exact within_bind (ih hrest) fun ds hds => within_pure (has_cons.mpr ⟨hd, hds⟩)

section

variable {caller : Caller} (hcaller : WithinCaller sc caller) {validators path : Value}
  (hvalidators : sc.Has validators)
include hcaller hvalidators

theorem within_customTerm (hpath : sc.Has path) (symbol : String) {operand : Value}
    (hoperand : sc.Has operand) :
    Within sc (customTerm caller validators path symbol operand) := by
  unfold customTerm
  refine within_bind (within_factory? symbol hvalidators) fun found hfound => ?_
  split
  · exact within_refuse _
  · have hargs : sc.Has [path, operand] := by simp [hpath, hoperand]
    refine within_bind (hcaller _ _ (has_some.mp hfound) hargs) fun f hf => ?_
    refine within_get_eq fun s t h => ⟨?_, ?_⟩
    · dsimp only
      rw [h.isCallable hf, h.kind hf]
    · dsimp only
      split
      · exact within_pure (Expression.has_custom.mpr ⟨hpath, hf⟩)
      · exact within_refuse _

theorem within_compileClauseAt (hpath : sc.Has path) (fuel : Nat) : ∀ {clause : Value},
    sc.Has clause → Within sc (compileClauseAt caller validators path fuel clause) := by
  induction fuel with
  | zero => exact fun _ => within_fault _
  | succ fuel ih =>
    intro clause hclause
    have hterm : ∀ op, sc.Has (Expression.term path op clause) := fun _ =>
      Expression.has_term.mpr ⟨hpath, hclause⟩
    unfold compileClauseAt
    split
    · exact within_pure (hterm _)
    · refine within_bind (within_operators? hclause) fun found hfound => ?_
      split
      · exact within_pure (hterm _)
      · rename_i es
        have hes : sc.Has es := has_some.mp hfound
        refine within_bind (within_compileEach (fun key operand hkey hoperand => ?_) hes)
          fun parts hparts => within_pure (has_conjunction hparts)
        split
        · split
          · exact within_bind (ih hoperand) fun e he => within_pure (Expression.has_not.mpr he)
          · split
            · refine within_bind (Operator.within_prepare _ hoperand) fun w hw => within_pure ?_
              exact Expression.has_term.mpr ⟨hpath, hw⟩
            · exact within_customTerm hcaller hvalidators hpath _ hoperand
        · exact within_fault _

@[grind ←]
theorem within_compileClause (hpath : sc.Has path) {clause : Value} (hclause : sc.Has clause) :
    Within sc (compileClause caller validators path clause) :=
  within_get_eq fun _ _ h => ⟨by rw [h.depth],
    within_compileClauseAt hcaller hvalidators hpath _ hclause⟩

theorem within_compileAt (fuel : Nat) : ∀ {spec : Value}, sc.Has spec →
    Within sc (compileAt caller validators fuel spec) := by
  induction fuel with
  | zero => exact fun _ => within_fault _
  | succ fuel ih =>
    intro spec hspec
    unfold compileAt
    refine within_get_eq fun s t h => ⟨?_, ?_⟩
    · dsimp only
      rw [h.isCallable hspec, h.entries? hspec, h.kind hspec]
    · dsimp only
      split
      · exact within_pure (Expression.has_predicate.mpr hspec)
      · split
        · exact within_refuse _
        · rename_i es hes
          have hes : sc.Has es := h.closed.entries? hspec es hes
          refine within_bind (within_compileEach (fun key clause hkey hclause => ?_) hes)
            fun parts hparts => within_pure (has_assemble hparts)
          have hplain := within_compileClause hcaller hvalidators hkey hclause
          refine within_get_eq fun s t h => ⟨?_, ?_⟩
          · rw [h.isMapping hclause, h.isCallable hclause, h.shown hclause]
          · split
            · split
              · split
                · exact within_bind (ih hclause) fun e he => within_pure (Expression.has_not.mpr he)
                · exact within_bind (within_ofExcept (has_inert sc _)) fun _ _ => within_refuse _
              · split
                · exact within_refuse _
                · exact hplain
            · exact hplain

@[grind ←]
theorem within_compile {spec : Value} (hspec : sc.Has spec) :
    Within sc (compile caller validators spec) :=
  within_get_eq fun _ _ h => ⟨by rw [h.depth], within_compileAt hcaller hvalidators _ hspec⟩

end

@[grind ←]
theorem within_single (hv : sc.Has v) (symbol : String) (hw : sc.Has w) :
    Within sc (single v symbol w) := by
  unfold single
  refine within_get_eq fun s t h => ⟨?_, ?_⟩
  · dsimp only
    rw [h.isKey hv]
  · dsimp only
    split
    · refine within_bind (within_make (has_cell_dict.mpr ?_)) fun clause hclause =>
        within_make (has_cell_dict.mpr ?_)
      · exact has_cons.mpr ⟨⟨has_str sc _, hw⟩, has_nil sc⟩
      · exact has_cons.mpr ⟨⟨hv, hclause⟩, has_nil sc⟩
    · exact within_fault _

@[grind ←]
theorem within_ofShorthand (hargs : sc.Has args) : Within sc (ofShorthand args) := by
  unfold ofShorthand
  split
  · obtain ⟨hpath, hoperand, -⟩ : sc.Has _ ∧ sc.Has _ ∧ True := by simpa using hargs
    exact within_single hpath _ hoperand
  · obtain ⟨hpath, hsign, hoperand⟩ : sc.Has _ ∧ sc.Has _ ∧ sc.Has _ := by simpa using hargs
    split
    · exact within_single hpath _ hoperand
    · exact within_bind (within_look fun _ _ h => ⟨h.shown hsign, has_inert sc _⟩) fun _ _ =>
        within_refuse _
  · exact within_refuse _

end Query

end Recordset
