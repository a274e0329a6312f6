import Recordset.Proofs.Scope.Deferred
import Recordset.Script.Eval
set_option autoImplicit false

/-!
# Sessions within a scope

Builtin functions, methods called by name and callbacks.  A callback names values of the scope that
it is in, directly or by a variable, and can do no more than call what stays within the scope
itself, so that by induction on the depth of calls every call of a value of a scope with values of
the scope stays within it: `within_apply`.
-/

namespace Recordset

open Recordset.Action Recordset.Scope

variable {sc : Scope} {v w : Value} {a : Address} {xs args : List Value} {given : Arguments}

/-! ## Builtin functions -/

namespace Builtin

instance : Scoped Builtin := ⟨fun _ _ => True⟩

instance : Inert Builtin := ⟨fun _ _ => trivial⟩

@[grind ←]
theorem within_whole (sc : Scope) (v : Value) : Within sc (whole v) := by
  have hread : ∀ r, Within sc (ofReading r) := fun r => by
    cases r with
    | ok n => exact within_pure (has_int sc n)
    | error e => exact within_fault _
  unfold whole
  split
  · exact hread _
  · exact hread _
  · exact within_fault _
  · split
    · exact within_pure (has_int sc _)
    · exact within_fault _
    · exact within_fault _
  · split
    · exact within_pure (has_int sc _)
    · exact within_fault _

/-- A fold with steps that come to the same. -/
theorem foldlM_congr {α β : Type} [Scoped α] [Scoped β] {f g : β → α → Except Error β} {xs : List α}
    (hxs : sc.Has xs)
    (hstep : ∀ b x, sc.Has b → sc.Has x → f b x = g b x ∧ sc.Has (g b x)) :
    ∀ {b}, sc.Has b → xs.foldlM f b = xs.foldlM g b ∧ sc.Has (xs.foldlM g b) := by
  induction xs with
  | nil =>
    intro b hb
    rw [List.foldlM_nil, List.foldlM_nil]
    exact ⟨rfl, has_return hb⟩
  | cons x xs ih =>
    intro b hb
    obtain ⟨hx, hxs⟩ := has_cons.mp hxs
    obtain ⟨heq, hhas⟩ := hstep b x hb hx
    rw [List.foldlM_cons, List.foldlM_cons, heq]
    exact ⟨except_bind_congr fun c hc => (ih hxs (hhas c hc)).1,
      has_bind hhas fun c hc => (ih hxs hc).2⟩

@[grind ←]
theorem within_best (c : Comparison) {first : Value × Value} {rest : Ranked}
    (hfirst : sc.Has first) (hrest : sc.Has rest) : Within sc (best c first rest) :=
  within_bind (within_look fun _ t h => foldlM_congr hrest (fun top next htop hnext => by
    rw [h.compare c (has_fst hnext) (has_fst htop)]
    refine ⟨rfl, has_bind (has_inert sc _) fun better _ => has_return ?_⟩
    split
    · exact hnext
    · exact htop) hfirst) fun _ hfound => within_pure (has_snd hfound)

@[grind ←]
theorem within_candidates (hargs : sc.Has args) : Within sc (candidates args) := by
  unfold candidates
  split
  · exact within_fault _
  · exact within_iterate (has_cons.mp hargs).1
  · exact within_pure hargs

section

variable {caller : Caller} (hcaller : WithinCaller sc caller)
include hcaller

@[grind ←]
theorem within_ranked (hv : sc.Has v) (hxs : sc.Has xs) : Within sc (ranked caller v xs) := by
  unfold ranked
  split
  · exact within_pure (has_map fun x hx => ⟨hxs.mem hx, hxs.mem hx⟩)
  · refine within_mapM hxs fun x hx => ?_
    exact within_bind (hcaller _ _ hv (has_cons.mpr ⟨hx, has_nil sc⟩)) fun key hkey =>
      within_pure ⟨hkey, hx⟩

@[grind ←]
theorem within_extreme (c : Comparison) (hv : sc.Has v) (hxs : sc.Has xs) :
    Within sc (extreme caller c v xs) := by
  unfold extreme
  refine within_bind (within_ranked hcaller hv hxs) fun keyed hkeyed => ?_
  split
  · exact within_fault _
  · obtain ⟨hfirst, hrest⟩ := has_cons.mp hkeyed
    exact within_best c hfirst hrest

@[grind ←]
theorem within_extremeOf (c : Comparison) (hargs : sc.Has args) {named : List (String × Value)}
    (hnamed : sc.Has named) : Within sc (extremeOf caller c args named) := by
  have hkey := (hnamed.lookup "key").getD (has_null sc)
  unfold extremeOf
  dsimp only
  split
  · exact within_bind (within_candidates hargs) fun vs hvs => within_extreme hcaller c hkey hvs
  · rename_i default hdefault
    refine within_bind (within_iterate (has_cons.mp hargs).1) fun vs hvs => ?_
    split
    · exact within_pure (hnamed.lookup "default" _ hdefault)
    · exact within_extreme hcaller c hkey hvs
  · exact within_fault _

@[grind ←]
theorem within_total (hv : sc.Has v) (hw : sc.Has w) : Within sc (total caller v w) := by
  unfold total
  split
  · exact within_fault _
  · exact within_fault _
  · refine within_bind (within_iterate hv) fun vs hvs => ?_
    exact within_foldlM hvs (fun _ _ hsum hx => Request.within_joinTo hcaller hsum hx) _ hw

@[grind ←]
theorem within_ascending {key backwards : Value} (hv : sc.Has v) (hkey : sc.Has key)
    (hbackwards : sc.Has backwards) : Within sc (ascending caller v key backwards) := by
  unfold ascending
  refine within_bind (within_iterate hv) fun vs hvs => ?_
  refine within_bind (within_ranked hcaller hkey hvs) fun keyed hkeyed => ?_
  refine within_get_bind fun s t h => ?_
  obtain ⟨heq, hsorted⟩ := h.sortTowards (fun s x y => s.less x.1 y.1)
    (fun h _ _ hx hy => h.less (has_fst hx) (has_fst hy)) (t.store.truth backwards) hkeyed
  dsimp only
  rw [h.truth hbackwards, heq]
  generalize Sorting.sortTowards (m := Id) _ _ keyed = sorted at hsorted ⊢
  split
  · rename_i pairs hpairs
    rw [hpairs] at hsorted
    have hpairs : sc.Has pairs := hsorted
    exact (within_make (has_cell_list.mpr hpairs.map_snd)).from h
  · exact (within_throw _).from h

/-- Builtin functions stay within the scope of their arguments. -/
@[grind ←]
theorem within_call (b : Builtin) (hgiven : sc.Has given) : Within sc (b.call caller given) := by
  obtain ⟨hpositional, hnamed⟩ := has_arguments_iff.mp hgiven
  have hnamedOr : ∀ (name : String) {default : Value}, sc.Has default →
      sc.Has ((given.named.lookup name).getD default) := fun name _ hdefault =>
    (hnamed.lookup name).getD hdefault
  have hone : ∀ {x : Value}, given.positional = [x] → sc.Has x := fun hx => by
    rw [hx] at hpositional
    exact (has_cons.mp hpositional).1
  unfold call
  split
  · exact within_fault _
  · dsimp only
    split
    case h_1 hx _ =>
      exact within_bind (within_look fun _ _ h => ⟨h.length (hone hx), has_inert sc _⟩) fun _ _ =>
        within_pure (has_int sc _)
    case h_3 hx _ =>
      exact within_bind (within_look fun _ _ h => ⟨h.text (hone hx), has_inert sc _⟩) fun _ _ =>
        within_pure (has_str sc _)
    case h_6 hx _ =>
      exact within_get_eq fun s t h => ⟨by rw [h.truth (hone hx)], within_pure (has_bool sc _)⟩
    case h_11 hx _ => exact within_total hcaller (hone hx) (hnamedOr "start" (has_int sc 0))
    case h_12 hx _ =>
      rw [hx] at hpositional
      obtain ⟨hx, hrest⟩ := has_cons.mp hpositional
      split
      · exact within_total hcaller hx (has_cons.mp hrest).1
      · exact within_fault _
    case h_13 hx _ =>
      exact within_bind (within_look fun _ _ h => ⟨h.shown (hone hx), has_inert sc _⟩) fun _ _ =>
        within_pure (has_str sc _)
    case h_14 hx _ =>
      exact within_ascending hcaller (hone hx) (hnamedOr "key" (has_null sc))
        (hnamedOr "reverse" (has_bool sc _))
    all_goals grind

end

end Builtin

/-! ## Methods called by name -/

namespace Invoke

@[grind ←]
theorem within_attributeName (sc : Scope) (given : Arguments) :
    Within sc (attributeName given) := by
  unfold attributeName
  split
  · exact within_pure (has_inert sc _)
  · exact within_fault _

@[grind ←]
theorem within_isSame (sc : Scope) (v : Value) (given : Arguments) :
    Within sc (isSame v given) := by
  unfold isSame
  split
  · exact within_pure (has_bool sc _)
  · exact within_fault _

@[grind ←]
theorem within_nameList (hv : sc.Has v) : Within sc (nameList v) := by
  unfold nameList
  refine within_get_bind fun s t h => ?_
  dsimp only
  refine withinFrom_bind ((within_iterate hv).from h) fun xs u u' hxs hu => ?_
  rw [h.all_isKey hxs]
  split
  · exact (within_pure (has_inert sc _)).from hu
  · exact (within_fault _).from hu

@[grind ←]
theorem within_sortedNames (sc : Scope) (names : List String) : Within sc (sortedNames names) :=
  within_make (has_cell_list.mpr (has_map fun _ _ => has_str sc _))

theorem has_registryParams (sc : Scope) {name : String} {signature : Signature}
    (h : Registry.methods.lookup name = some signature) : sc.Has signature.params := by
  obtain ⟨front, back, hmethods, -⟩ := List.lookup_eq_some_iff.mp h
  have hmem : (name, signature) ∈ Registry.methods := hmethods ▸ by simp
  have hall : ∀ m ∈ Registry.methods, sc.Has m.2.params := by
    simp [Registry.methods, Signature.required, Signature.optional, Has, Scoped.Held, HasValue]
  exact hall _ hmem

theorem has_builderParams (sc : Scope) {name : String} {signature : Signature}
    (h : Builder.others.lookup name = some signature) : sc.Has signature.params := by
  obtain ⟨front, back, hmethods, -⟩ := List.lookup_eq_some_iff.mp h
  have hmem : (name, signature) ∈ Builder.others := hmethods ▸ by simp
  have hall : ∀ m ∈ Builder.others, sc.Has m.2.params := by
    simp [Builder.others, Signature.optional, Has, Scoped.Held, HasValue]
  exact hall _ hmem

@[grind ←]
theorem within_onRegistry (ha : sc.Has a) (name : String) (hgiven : sc.Has given) :
    Within sc (onRegistry a name given) := by
  unfold onRegistry
  refine within_get_bind fun s t h => ?_
  dsimp only
  split
  · exact (within_fault _).from h
  · rename_i signature hsignature
    have hbound := Signature.has_bind (has_registryParams sc hsignature) hgiven
    refine withinFrom_bind ((within_ofExcept hbound).from h) fun values u u' hvalues hu => ?_
    split
    · obtain ⟨hkey, hrest⟩ := has_cons.mp hvalues
      exact (within_bind (Registry.within_register ha hkey (has_cons.mp hrest).1) fun _ _ =>
        within_pure (has_null sc)).from hu
    · refine (within_bind (within_nameList (has_cons.mp hvalues).1) fun names _ => ?_).from hu
      exact within_bind (Registry.within_reserveAll ha names) fun _ _ => within_pure (has_null sc)
    · split
      · rw [h.lookup ha]
        split
        · rename_i f hf
          exact (within_pure (h.closed.lookup ha _ f hf)).from hu
        · exact (within_alongChain ha (within_pure (has_null sc))).from hu
      · rw [h.isKey (has_cons.mp hvalues).1]
        split
        · exact (within_pure (has_null sc)).from hu
        · exact (within_fault _).from hu
    · have hchild : ∀ names : List String, Within sc (do
          return Value.ref (← Registry.make (some a) names)) := fun names =>
        within_bind (Registry.within_make (has_some.mpr ha) names) fun child hchild =>
          within_pure (has_ref.mpr hchild)
      split
      · exact (within_bind (within_pure (has_inert sc _)) fun names _ => hchild names).from hu
      · exact (within_bind (within_nameList (has_cons.mp hvalues).1) fun names _ =>
          hchild names).from hu
    · rw [h.names ha]
      exact (within_alongChain ha (within_sortedNames sc _)).from hu
    · exact (within_fault _).from hu

section

variable {caller : Caller} (hcaller : WithinCaller sc caller)
include hcaller

@[grind ←]
theorem within_request (r : Request) (hv : sc.Has v) (hgiven : sc.Has given) :
    Within sc (request caller r v given) := by
  unfold request
  split
  · exact Request.within_answer hcaller r hv hgiven.1
  · exact within_fault _

@[grind ←]
theorem within_onBuilder {b : Builder} (ha : sc.Has a) (hb : sc.Has b) (name : String)
    (hgiven : sc.Has given) : Within sc (onBuilder caller a b name given) := by
  unfold onBuilder
  split
  · exact within_bind (Builder.within_chain hb _ hgiven) fun longer hlonger =>
      within_make (has_cell_builder.mpr hlonger)
  · rename_i hsignature
    refine within_bind
      (within_ofExcept (Signature.has_bind (has_builderParams sc hsignature) hgiven))
      fun values hvalues => ?_
    split
    · exact Builder.within_explain hb (has_cons.mp hvalues).1
    · exact Builder.within_await hcaller ha
    · exact within_fault _
  · exact within_fault _

@[grind ←]
theorem within_onCell (ha : sc.Has a) (name : String) (hgiven : sc.Has given) :
    Within sc (onCell caller a name given) := by
  unfold onCell
  refine within_bind (within_cell ha) fun c hc => ?_
  split
  · exact Collection.within_invoke hcaller ha _ hgiven
  · exact within_onBuilder hcaller ha (has_cell_builder.mp hc) name hgiven
  · exact within_onRegistry ha name hgiven
  · exact within_fault _

end

end Invoke

section

variable {caller : Caller} (hcaller : WithinCaller sc caller)
include hcaller

@[grind ←]
theorem within_callWith (hv : sc.Has v) : ∀ {given : Arguments}, sc.Has given →
    Within sc (callWith caller v given) := by
  induction v with
  | extension serial g receiver ih =>
    intro given hgiven
    obtain ⟨-, hg, hreceiver⟩ := has_extension.mp hv
    unfold callWith
    exact ih hg ⟨has_cons.mpr ⟨hreceiver, hgiven.1⟩, hgiven.2⟩
  | builtin b => exact fun hgiven => Builtin.within_call hcaller b hgiven
  | method serial a name =>
    exact fun hgiven => Invoke.within_onCell hcaller (has_method.mp hv).2 name hgiven
  | _ =>
    intro given hgiven
    unfold callWith
    split
    · exact hcaller _ _ hv hgiven.1
    · exact hcaller _ _ hv (has_cons.mpr ⟨has_snd (has_cons.mp hgiven.2).1, has_nil sc⟩)
    · exact within_fault _

namespace Invoke

@[grind ←]
theorem within_onAttribute (hv : sc.Has v) (name : String) (hgiven : sc.Has given) :
    Within sc (onAttribute caller v name given) := by
  unfold onAttribute
  refine within_bind (within_attribute? hv name) fun found hfound => ?_
  split
  · exact within_callWith hcaller (has_some.mp hfound) hgiven
  · exact within_request hcaller _ hv hgiven
  · exact within_lacking hv name

@[grind ←]
theorem within_onValue (hv : sc.Has v) (name : String) (hgiven : sc.Has given) :
    Within sc (onValue caller v name given) := by
  unfold onValue
  refine within_get_bind fun s t h => ?_
  dsimp only
  rw [h.view hv]
  split
  · exact (within_bind (within_attributeName sc _) fun name _ => within_attributeOf hv name).from h
  · exact (within_isSame sc _ _).from h
  · rename_i xs x hview
    have hxs := has_cell_list.mp (h.closed.has_of_view hv hview)
    have hx := (has_cons.mp hgiven.1).1
    exact (within_bind (within_write hv (has_cell_list.mpr (Collection.has_kept hxs hx))) fun _ _ =>
      within_pure (has_null sc)).from h
  · exact (within_fault _).from h
  · exact (Builder.within_await hcaller hv).from h
  · exact (Builder.within_cancel hcaller hv).from h
  · rw [h.reservedNames hv]
    exact (within_alongChain hv (within_sortedNames sc _)).from h
  · rename_i contexts hview
    have hcontexts := (has_recorder.mp (has_cell_executor.mp (h.closed.has_of_view hv hview))).2
    exact (within_bind (within_mapM hcontexts fun c hc => Context.within_describe hc)
      fun described hdescribed => within_make (has_cell_list.mpr hdescribed)).from h
  · exact (within_onAttribute hcaller hv _ hgiven).from h

end Invoke

/-- Methods called by name stay within the scope of the value and the arguments. -/
@[grind ←]
theorem within_invoke (hv : sc.Has v) (name : String) (hgiven : sc.Has given) :
    Within sc (invoke caller v name given) := by
  unfold invoke
  split
  · exact Invoke.within_request hcaller _ hv hgiven
  · exact Invoke.within_onValue hcaller hv name hgiven

end

/-! ## Callbacks -/

instance : Scoped Frame := ⟨fun sc frame => sc.Has frame.args ∧ sc.Has frame.outer⟩

namespace Frame

variable {frame : Frame} (hframe : sc.Has frame)
include hframe

theorem has_arg (i : Int) : sc.Has (frame.arg i) := by
  refine Has.getD ?_ (has_null sc)
  cases Slice.place? frame.args.length i with
  | none => exact has_none sc
  | some n => exact hframe.1.getElem? n

theorem has_outerArg (i : Int) : sc.Has (frame.outerArg i) :=
  has_itemAt (hframe.2.getD (has_nil sc)) _

end Frame

namespace Action

@[grind ←]
theorem within_log (sc : Scope) (v : Value) : Within sc (record v) :=
  within_modify (fun _ => rfl) (fun _ => rfl) fun _ => rfl

@[grind ←]
theorem within_makeSet (hxs : sc.Has xs) : Within sc (makeSet xs) := by
  unfold makeSet
  refine within_get_eq fun s t h => ⟨?_, ?_⟩
  · dsimp only
    rw [h.all_isKey hxs, h.setOf hxs]
  · dsimp only
    split
    · exact within_make (has_cell_set.mpr (has_setOf hxs))
    · exact within_fault _

@[grind ←]
theorem within_makeEntries {keys : List Value} (hkeys : sc.Has keys) (hxs : sc.Has xs) :
    Within sc (makeEntries keys xs) := by
  unfold makeEntries
  refine within_get_eq fun s t h => ⟨?_, ?_⟩
  · dsimp only
    rw [h.all_isKey hkeys, h.ofList (hkeys.zip hxs)]
  · dsimp only
    split
    · exact within_pure (has_ofList (hkeys.zip hxs))
    · exact within_fault _

@[grind ←]
theorem within_makeCollection (hxs : sc.Has xs) : Within sc (makeCollection xs) := by
  unfold makeCollection
  refine within_bind (within_make (has_cell_list.mpr hxs)) fun items hitems => ?_
  refine within_bind (Collection.within_construct hitems (has_null sc) (has_none sc) (has_none sc))
    fun a ha => within_pure (has_ref.mpr ha)

@[grind ←]
theorem within_makeMemory (hv : sc.Has v) (hw : sc.Has w) : Within sc (makeMemory v w) := by
  have hmake : ∀ items : List Value, sc.Has items → Within sc (do
      Action.make (.executor (.memory (← Action.make (.list items)) w))) := fun items hitems =>
    within_bind (within_make (has_cell_list.mpr hitems)) fun list hlist =>
      within_make (has_cell_executor.mpr (has_memory.mpr ⟨hlist, hw⟩))
  unfold makeMemory
  refine within_get_eq fun s t h => ⟨by rw [h.truth hv], ?_⟩
  split
  · exact within_bind (within_iterate hv) fun items hitems => hmake items hitems
  · exact within_bind (within_pure (has_nil sc)) fun items hitems => hmake items hitems

end Action

namespace Expr

/-! ## Groups of expressions

Each lemma is about the expressions of one group, all of whose parts stay within the scope;
`within_eval` brings the groups together. -/

section

variable {caller : Caller} {frame : Frame} {e : Expr}

/-- The values of several expressions stay within the scope, where each of them does. -/
theorem within_evalAll {es : List Expr} (hes : ∀ p ∈ es, Within sc (p.eval caller frame)) :
    Within sc (evalAll caller frame es) := by
  induction es with
  | nil => exact within_pure (has_nil sc)
  | cons e es ih =>
    unfold evalAll
    refine within_bind (hes e (.head _)) fun v hv => ?_
    refine within_bind (ih fun p hp => hes p (.tail _ hp)) fun vs hvs => ?_
    exact within_pure (has_cons.mpr ⟨hv, hvs⟩)

theorem within_evalLeaf (hframe : sc.Has frame) (hgroup : e.group = .leaf)
    (he : sc.Has (e.names sc.bound)) : Within sc (e.eval caller frame) := by
  cases e with
  | lit v => exact within_pure (has_cons.mp he).1
  | bound name => exact within_lookup fun v hv => he.mem (Option.mem_toList.mpr hv)
  | nan => exact within_number sc _
  | pattern source ignoreCase =>
    unfold eval
    grind
  | hostile => exact within_make (has_cell_hostile sc)
  | unsteady => exact within_make (has_cell_custom.mpr (has_nil sc))
  | arg i => exact within_pure (Frame.has_arg hframe i)
  | args => exact within_make (has_cell_list.mpr hframe.1)
  | outer i => exact within_ofExcept (Frame.has_outerArg hframe i)
  | raise kind message => exact within_throw _
  | function enclosed shape body =>
    refine within_make (has_cell_function.mpr (has_append.mpr ⟨he, ?_⟩))
    cases enclosed with
    | true => exact hframe.1
    | false => exact has_nil sc
  | _ => cases hgroup

theorem within_evalTest (hgroup : e.group = .test)
    (hparts : ∀ p ∈ e.parts, Within sc (p.eval caller frame)) :
    Within sc (e.eval caller frame) := by
  cases e with
  | both left right | either left right =>
    have hright := hparts right (.tail _ (.head _))
    unfold eval
    refine within_bind (hparts left (.head _)) fun v hv => ?_
    exact within_bind (Expression.within_truthOf hv) fun b _ => by grind
  | not e =>
    unfold eval
    refine within_bind (hparts e (.head _)) fun v hv => ?_
    exact within_bind (Expression.within_truthOf hv) fun b _ => within_pure (has_bool sc _)
  | cond test yes no =>
    have hyes := hparts yes (.tail _ (.head _))
    have hno := hparts no (.tail _ (.tail _ (.head _)))
    unfold eval
    refine within_bind (hparts test (.head _)) fun v hv => ?_
    exact within_bind (Expression.within_truthOf hv) fun b _ => by grind
  | _ => cases hgroup

theorem within_evalOperation (hcaller : WithinCaller sc caller) (hgroup : e.group = .operation)
    (hparts : ∀ p ∈ e.parts, Within sc (p.eval caller frame)) :
    Within sc (e.eval caller frame) := by
  cases e with
  | get e path =>
    unfold eval
    refine within_bind (hparts e (.head _)) fun v hv => ?_
    exact within_bind (hparts path (.tail _ (.head _))) fun p hp =>
      Path.within_resolve hv hp (has_null sc)
  | item e key =>
    unfold eval
    refine within_bind (hparts e (.head _)) fun v hv => ?_
    exact within_bind (hparts key (.tail _ (.head _))) fun k hk =>
      within_look fun _ _ h => ⟨h.item hv hk, h.closed.item hv k⟩
  | binary op left right =>
    unfold eval
    refine within_bind (hparts left (.head _)) fun v hv => ?_
    refine within_bind (hparts right (.tail _ (.head _))) fun w hw => ?_
    split
    · exact Request.within_joinTo hcaller hv hw
    · exact within_binary _ hv hw
  | length e =>
    unfold eval
    refine within_bind (hparts e (.head _)) fun v hv => ?_
    exact within_bind (within_look fun _ _ h => ⟨h.length hv, has_inert sc _⟩) fun _ _ =>
      within_pure (has_int sc _)
  | text e =>
    unfold eval
    refine within_bind (hparts e (.head _)) fun v hv => ?_
    exact within_bind (within_look fun _ _ h => ⟨h.text hv, has_inert sc _⟩) fun _ _ =>
      within_pure (has_str sc _)
  | log e =>
    unfold eval
    refine within_bind (hparts e (.head _)) fun v hv => ?_
    exact within_bind (within_log sc v) fun _ _ => within_pure hv
  | seq es =>
    unfold eval
    exact within_bind (within_evalAll hparts) fun vs hvs =>
      within_pure (hvs.getLast?.getD (has_null sc))
  | assign target key value =>
    unfold eval
    refine within_bind (hparts target (.head _)) fun t ht => ?_
    refine within_bind (hparts key (.tail _ (.head _))) fun k hk => ?_
    refine within_bind (hparts value (.tail _ (.tail _ (.head _)))) fun v hv => ?_
    exact within_bind (within_assign ht hk hv) fun _ _ => within_pure hv
  | call receiver method es =>
    unfold eval
    refine within_bind (hparts receiver (.head _)) fun r hr => ?_
    refine within_bind (within_evalAll fun p hp => hparts p (.tail _ hp)) fun vs hvs => ?_
    exact within_invoke hcaller hr method ⟨hvs, has_nil sc⟩
  | _ => cases hgroup

/-- What has been put together from values of the scope is a value of it. -/
theorem within_making {α : Type} [Scoped α] {x : Action α} (hx : Within sc x) {cell : α → Cell}
    (hcell : ∀ b, sc.Has b → sc.Has (cell b)) : Within sc (do Action.make (cell (← x))) :=
  within_bind hx fun b hb => within_make (hcell b hb)

theorem within_evalContainer (hgroup : e.group = .container)
    (hparts : ∀ p ∈ e.parts, Within sc (p.eval caller frame)) :
    Within sc (e.eval caller frame) := by
  cases e with
  | list es =>
    unfold eval
    exact within_making (within_evalAll hparts) fun _ => has_cell_list.mpr
  | tuple es =>
    unfold eval
    exact within_making (within_evalAll hparts) fun _ => has_cell_tuple.mpr
  | set es =>
    unfold eval
    exact within_bind (within_evalAll hparts) fun vs hvs => within_makeSet hvs
  | iterator es =>
    unfold eval
    exact within_making (within_evalAll hparts) fun _ => has_cell_iterator.mpr
  | collection es =>
    unfold eval
    exact within_bind (within_evalAll hparts) fun vs hvs => within_makeCollection hvs
  | dict keys values =>
    unfold eval
    refine within_bind (within_evalAll fun p hp => hparts p (List.mem_append_left _ hp))
      fun ks hks => ?_
    refine within_bind (within_evalAll fun p hp => hparts p (List.mem_append_right _ hp))
      fun vs hvs => ?_
    exact within_making (within_makeEntries hks hvs) fun _ => has_cell_dict.mpr
  | frozen keys values =>
    unfold eval
    refine within_bind (within_evalAll fun p hp => hparts p (List.mem_append_left _ hp))
      fun ks hks => ?_
    refine within_bind (within_evalAll fun p hp => hparts p (List.mem_append_right _ hp))
      fun vs hvs => ?_
    exact within_making (within_makeEntries hks hvs) fun _ => has_cell_frozen.mpr
  | object names values =>
    unfold eval
    exact within_making (within_evalAll hparts) fun vs hvs =>
      has_cell_object.mpr ((has_inert sc names).zip hvs)
  | custom kind names values =>
    unfold eval
    exact within_making (within_evalAll hparts) fun vs hvs =>
      has_cell_custom.mpr ((has_inert sc names).zip hvs)
  | _ => cases hgroup

theorem within_evalExecutor (hgroup : e.group = .executor)
    (hparts : ∀ p ∈ e.parts, Within sc (p.eval caller frame)) :
    Within sc (e.eval caller frame) := by
  cases e with
  | memory items policy =>
    cases policy with
    | none =>
      unfold eval
      exact within_bind (hparts items (.head _)) fun v hv => within_makeMemory hv (has_null sc)
    | some policy =>
      obtain ⟨perPage, separator, direction, seed⟩ := policy
      simp only [parts, List.forall_mem_cons] at hparts
      obtain ⟨hitems, hperPage, hseparator, hdirection, hseed, -⟩ := hparts
      unfold eval
      refine within_bind hitems fun v hv => within_bind hperPage fun p hp => ?_
      refine within_bind hseparator fun q hq => within_bind hdirection fun d hd => ?_
      refine within_bind hseed fun r hr => ?_
      refine within_bind (Policy.within_make hp hq hd hr) fun policy hpolicy => ?_
      exact within_bind (within_make (has_cell_policy.mpr hpolicy)) fun w hw =>
        within_makeMemory hv hw
  | recorder behaviour value =>
    unfold eval
    exact within_making (hparts value (.head _)) fun v hv =>
      has_cell_executor.mpr (has_recorder.mpr ⟨hv, has_nil sc⟩)
  | _ => cases hgroup

/-- What an expression comes to stays within a scope that has all that it names and the
arguments. -/
theorem within_eval (hcaller : WithinCaller sc caller) (hframe : sc.Has frame) (e : Expr)
    (he : sc.Has (e.names sc.bound)) : Within sc (e.eval caller frame) := by
  induction e using byParts with
  | step e ih =>
    have hparts : ∀ p ∈ e.parts, Within sc (p.eval caller frame) := fun p hp =>
      ih p hp (he.of_subset (names_subset hp sc.bound))
    cases hgroup : e.group with
    | leaf => exact within_evalLeaf hframe hgroup he
    | test => exact within_evalTest hgroup hparts
    | operation => exact within_evalOperation hcaller hgroup hparts
    | container => exact within_evalContainer hgroup hparts
    | executor => exact within_evalExecutor hgroup hparts

end

end Expr

namespace Function

variable {caller : Caller} (hcaller : WithinCaller sc caller)
include hcaller

theorem within_produce {check : Option Expr} {answer : FactoryAnswer} {path operand : Value}
    (hf : sc.Has (Function.factory check answer)) (hpath : sc.Has path)
    (hoperand : sc.Has operand) :
    Within sc (produce caller check answer path operand) := by
  obtain ⟨hcheck, hanswer⟩ := has_append.mp hf
  have hframe : sc.Has ({ args := [path, operand] } : Frame) :=
    ⟨by simp [hpath, hoperand], has_none sc⟩
  -- what is given in the end comes after the check, when there is one
  have hafter : ∀ {x : Action Value}, Within sc x → ∀ e, check = some e →
      Within sc (do let _ ← e.eval caller { args := [path, operand] }; x) := by
    rintro x hx e rfl
    exact within_bind (Expr.within_eval hcaller hframe e hcheck) fun _ _ => hx
  unfold produce
  cases answer with
  | predicate body =>
    have hmake : Within sc (Action.make (.function (.predicate body path operand))) :=
      within_make (has_cell_function.mpr
        (has_cons.mpr ⟨hpath, has_cons.mpr ⟨hoperand, hanswer⟩⟩))
    cases check with
    | none => exact hmake
    | some e => exact hafter hmake e rfl
  | value e =>
    have hvalue := Expr.within_eval hcaller hframe e hanswer
    cases check with
    | none => exact hvalue
    | some e => exact hafter hvalue e rfl

theorem within_run {f : Function} (hf : sc.Has f) (hargs : sc.Has args) :
    Within sc (f.run caller args) := by
  unfold run
  split
  · rename_i outer
    obtain ⟨hbody, houter⟩ := has_append.mp hf
    have henclosing : sc.Has outer := by
      cases outer with
      | none => exact has_none sc
      | some enclosing => exact has_some.mpr houter
    split
    · exact Expr.within_eval hcaller ⟨hargs, henclosing⟩ _ hbody
    · exact within_fault _
  · obtain ⟨hpath, hrest⟩ := has_cons.mp hargs
    exact within_produce hcaller hf hpath (has_cons.mp hrest).1
  · obtain ⟨hpath, hrest⟩ := has_cons.mp hf
    obtain ⟨hoperand, hbody⟩ := has_cons.mp hrest
    refine Expr.within_eval hcaller ⟨?_, has_none sc⟩ _ hbody
    exact has_cons.mpr ⟨hpath, has_cons.mpr ⟨hoperand, hargs⟩⟩
  · exact within_fault _

end Function

/-- Calls stay within a scope at every depth. -/
theorem within_applyAt (sc : Scope) (depth : Nat) : WithinCaller sc (applyAt depth) := by
  induction depth with
  | zero => exact fun f args _ _ => within_fault _
  | succ depth ih =>
    intro f args hf hargs
    unfold applyAt
    cases f with
    | builtin b => exact Builtin.within_call ih b ⟨hargs, has_nil sc⟩
    | extension serial g receiver =>
      obtain ⟨-, hg, hreceiver⟩ := has_extension.mp hf
      exact ih g _ hg (has_cons.mpr ⟨hreceiver, hargs⟩)
    | method serial a name =>
      exact Invoke.within_onCell ih (has_method.mp hf).2 name ⟨hargs, has_nil sc⟩
    | ref a =>
      refine within_bind (within_cell hf) fun c hc => ?_
      cases c with
      | function g => exact Function.within_run ih (has_cell_function.mp hc) hargs
      | executor e => exact Executor.within_call ih hf (has_cell_executor.mp hc) hargs
      | _ => exact within_fault _
    | _ => exact within_fault _

/-- Whatever is called in a scope stays within it. -/
theorem within_apply (sc : Scope) : WithinCaller sc apply := within_applyAt sc callDepth

end Recordset
