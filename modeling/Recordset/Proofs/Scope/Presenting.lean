import Recordset.Collection.Perform
import Recordset.Proofs.Scope.Changing
set_option autoImplicit false

/-!
# Calls of collections within a scope

A new collection takes its items, its policy and its registry from the scope, and all else that it
has is new.  A document of a value has no values in it.  Every method of a collection and every
request to a container stays within a scope, whatever it is called with there.
-/

namespace Recordset

open Recordset.Action Recordset.Scope

variable {sc : Scope} {v w : Value} {a : Address} {xs args : List Value} {es : Entries}

/-! ## Making a collection -/

namespace Policy

@[grind ←]
theorem within_read (ha : sc.Has a) : Within sc (read a) := by
  unfold read
  grind

@[grind ←]
theorem within_newGenerator (sc : Scope) (p : Policy) : Within sc p.newGenerator := by
  unfold newGenerator
  grind

end Policy

namespace Collection

@[grind ←]
theorem within_entryOf (hv : sc.Has v) : Within sc (entryOf v) := by
  unfold entryOf
  refine within_bind (within_iterate hv) fun xs hxs => ?_
  split
  · obtain ⟨hkey, hrest⟩ := has_cons.mp hxs
    refine within_get_eq fun s t h => ⟨by rw [h.isKey hkey], ?_⟩
    split
    · exact within_pure ⟨hkey, (has_cons.mp hrest).1⟩
    · exact within_fault _
  · exact within_fault _

@[grind ←]
theorem within_copyValidators (hv : sc.Has v) : Within sc (copyValidators v) := by
  unfold copyValidators
  refine within_get_eq fun s t h => ⟨?_, ?_⟩
  · dsimp only
    rw [h.entries? hv, h.truth hv]
  · dsimp only
    split
    · rename_i es hes
      exact within_alloc (has_cell_dict.mpr (h.closed.entries? hv es hes))
    · split
      · refine within_bind (within_iterate hv) fun xs hxs => ?_
        refine within_bind (within_mapM hxs fun x hx => within_entryOf hx) fun es hes => ?_
        refine within_get_eq fun s t h => ⟨by rw [h.ofList hes], ?_⟩
        exact within_alloc (has_cell_dict.mpr (has_ofList hes))
      · exact within_alloc (has_cell_dict.mpr (has_nil sc))

@[grind ←]
theorem within_newRegistry {given : Option Address} (hgiven : sc.Has given) :
    Within sc (newRegistry given) := by
  unfold newRegistry
  split
  · refine within_bind (Registry.within_reserveAll (has_some.mp hgiven) _) fun _ _ => ?_
    exact Registry.within_make hgiven _
  · exact Registry.within_make (has_some.mpr (has_sharedRegistry sc)) _

@[grind ←]
theorem within_construct {policy registry : Option Address} (hv : sc.Has v) (hw : sc.Has w)
    (hpolicy : sc.Has policy) (hregistry : sc.Has registry) :
    Within sc (construct v w policy registry) := by
  have hpolicy := hpolicy.getD (has_defaultPolicy sc)
  unfold construct
  refine within_bind (within_initialItems hv) fun items hitems => ?_
  refine within_bind (within_copyValidators hw) fun validators hvalidators => ?_
  refine within_bind (within_newRegistry hregistry) fun registry hregistry => ?_
  refine within_bind (Policy.within_read hpolicy) fun p _ => ?_
  refine within_bind (Policy.within_newGenerator sc p) fun generator hgenerator => ?_
  refine within_bind (within_alloc (has_cell_list.mpr hitems)) fun list hlist => within_alloc ?_
  exact has_cell_collection.mpr
    ⟨hlist, hvalidators, hpolicy, hregistry, hgenerator, has_nil sc⟩

end Collection

/-! ## Documents -/

namespace Json

instance : Scoped Json := ⟨fun _ _ => True⟩

instance : Inert Json := ⟨fun _ _ => trivial⟩

@[grind ←]
theorem within_key (sc : Scope) (v : Value) : Within sc (key v) := by
  unfold key
  grind

section

variable {document : Value → Action Json} (hdocument : ∀ v, sc.Has v → Within sc (document v))
include hdocument

theorem within_ofAll (hxs : sc.Has xs) : Within sc (ofAll document xs) := by
  induction xs with
  | nil => exact within_pure (has_nil sc)
  | cons x xs ih =>
    obtain ⟨hx, hxs⟩ := has_cons.mp hxs
    refine within_bind (hdocument x hx) fun d hd => within_bind (ih hxs) fun ds hds => ?_
    exact within_pure (has_cons.mpr ⟨hd, hds⟩)

theorem within_ofEntries (hes : sc.Has es) : Within sc (ofEntries document es) := by
  induction es with
  | nil => exact within_pure (has_nil sc)
  | cons e es ih =>
    obtain ⟨he, hes⟩ := has_cons.mp hes
    refine within_bind (within_key sc e.1) fun name _ => ?_
    refine within_bind (hdocument e.2 (has_snd he)) fun d hd => ?_
    refine within_bind (ih hes) fun ds hds => ?_
    exact within_pure (has_inert sc _)

end

section

variable {caller : Caller} (hcaller : WithinCaller sc caller) {default : Value}
  (hdefault : sc.Has default)
include hcaller hdefault

theorem within_substitute (hv : sc.Has v) : Within sc (substitute caller default v) := by
  unfold substitute
  split
  · exact within_fault _
  · exact hcaller _ _ hdefault (has_cons.mpr ⟨hv, has_nil sc⟩)

theorem within_ofValueAt (fuel : Nat) : ∀ (outer : List Value) {v : Value}, sc.Has v →
    Within sc (ofValueAt caller default fuel outer v) := by
  induction fuel with
  | zero => exact fun _ _ _ => within_fault _
  | succ fuel ih =>
    intro outer v hv
    have hinner : ∀ w, sc.Has w → Within sc (ofValueAt caller default fuel (v :: outer) w) :=
      fun w hw => ih (v :: outer) hw
    unfold ofValueAt
    split
    · exact within_pure (has_inert sc _)
    · exact within_pure (has_inert sc _)
    · refine within_get_eq fun s t h => ⟨?_, ?_⟩
      · dsimp only
        rw [h.view hv]
      · dsimp only
        split
        · exact within_fault _
        · split
          · rename_i xs hview
            refine within_bind (within_ofAll hinner ?_) fun _ _ => within_pure (has_inert sc _)
            exact has_cell_list.mp (h.closed.has_of_view hv hview)
          · rename_i xs hview
            refine within_bind (within_ofAll hinner ?_) fun _ _ => within_pure (has_inert sc _)
            exact has_cell_tuple.mp (h.closed.has_of_view hv hview)
          · rename_i es hview
            refine within_bind (within_ofEntries hinner ?_) fun _ _ => within_pure (has_inert sc _)
            exact has_cell_dict.mp (h.closed.has_of_view hv hview)
          · exact within_bind (within_substitute hcaller hdefault hv) fun w hw => hinner w hw

@[grind ←]
theorem within_ofValue (hv : sc.Has v) : Within sc (ofValue caller default v) := by
  unfold ofValue
  exact within_get_eq fun s t h =>
    ⟨by rw [h.depth], within_ofValueAt hcaller hdefault _ [] hv⟩

end

end Json

/-! ## Requests -/

namespace Request

@[grind ←]
theorem within_partOf {start stop step : Value} (hv : sc.Has v) :
    Within sc (partOf v start stop step) := by
  unfold partOf
  refine within_get_eq fun s t h => ⟨?_, ?_⟩
  · dsimp only
    rw [h.view hv]
  · dsimp only
    split
    · exact Collection.within_sliceEvery (has_ref.mp hv) _ _ _
    · rename_i xs _ hview
      have hxs := has_cell_list.mp (h.closed.has_of_view hv hview)
      exact within_bind (Collection.within_everyOf hxs _ _ _) fun ys hys =>
        within_make (has_cell_list.mpr hys)
    · rename_i xs _ hview
      have hxs := has_cell_tuple.mp (h.closed.has_of_view hv hview)
      exact within_bind (Collection.within_everyOf hxs _ _ _) fun ys hys =>
        within_make (has_cell_tuple.mpr hys)
    · exact within_fault _

@[grind ←]
theorem within_backwardsOf (hv : sc.Has v) : Within sc (backwardsOf v) := by
  have hmake : ∀ {ys : List Value}, sc.Has ys → Within sc (make (.list ys.reverse)) :=
    fun hys => within_make (has_cell_list.mpr hys.reverse)
  unfold backwardsOf
  refine within_get_bind fun s t h => ?_
  dsimp only
  rw [h.view hv]
  split
  · rename_i xs hview
    exact (hmake (has_cell_list.mp (h.closed.has_of_view hv hview))).from h
  · rename_i xs hview
    exact (hmake (has_cell_tuple.mp (h.closed.has_of_view hv hview))).from h
  · rename_i c hview
    have hc := has_cell_collection.mp (h.closed.has_of_view hv hview)
    rw [h.items hc]
    exact (hmake (h.closed.items hc)).from h
  · rename_i es hview
    exact (hmake (has_cell_dict.mp (h.closed.has_of_view hv hview)).map_fst).from h
  · rename_i es hview
    exact (hmake (has_cell_frozen.mp (h.closed.has_of_view hv hview)).map_fst).from h
  · exact (within_fault _).from h

section

variable {caller : Caller} (hcaller : WithinCaller sc caller)
include hcaller

@[grind ←]
theorem within_joinTo (hv : sc.Has v) (hw : sc.Has w) : Within sc (joinTo caller v w) := by
  have hargs : sc.Has [w] := has_cons.mpr ⟨hw, has_nil sc⟩
  unfold joinTo
  refine within_get_eq fun s t h => ⟨by rw [h.collection? hv], ?_⟩
  split
  · have ha := has_ref.mp hv
    exact Collection.within_through hcaller ha _ hargs (Collection.within_concat ha hargs)
  · exact within_binary .add hv hw

/-- Requests stay within the scope that they are made in. -/
@[grind ←]
theorem within_answer (r : Request) (hv : sc.Has v) (hargs : sc.Has args) :
    Within sc (r.answer caller v args) := by
  unfold answer
  split
  · exact within_bind (within_look fun _ _ h => ⟨h.length hv, has_inert sc _⟩) fun n _ =>
      within_pure (has_int sc _)
  · exact within_bind (within_iterate hv) fun xs hxs => within_make (has_cell_list.mpr hxs)
  · exact within_backwardsOf hv
  · exact within_binary .member (has_cons.mp hargs).1 hv
  · exact within_look fun _ _ h =>
      ⟨h.item hv (has_cons.mp hargs).1, h.closed.item hv _⟩
  · exact within_partOf hv
  · exact within_partOf hv
  · exact within_partOf hv
  · obtain ⟨hkey, hrest⟩ := has_cons.mp hargs
    exact within_bind (within_assign hv hkey (has_cons.mp hrest).1) fun _ _ =>
      within_pure (has_null sc)
  · exact within_bind (within_remove hv (has_cons.mp hargs).1) fun _ _ =>
      within_pure (has_null sc)
  · exact within_binary .equal hv (has_cons.mp hargs).1
  · exact within_binary .unequal hv (has_cons.mp hargs).1
  · exact within_joinTo hcaller hv (has_cons.mp hargs).1
  · exact within_bind (within_look fun _ _ h => ⟨h.shown hv, has_inert sc _⟩) fun t _ =>
      within_pure (has_str sc _)
  · exact within_bind (within_look fun _ _ h => ⟨h.text hv, has_inert sc _⟩) fun t _ =>
      within_pure (has_str sc _)
  · refine within_get_eq fun s t h => ⟨?_, ?_⟩
    · dsimp only
      rw [h.isKey hv, h.hash? hv]
    · dsimp only
      split
      · exact within_pure (has_int sc _)
      · exact within_fault _
  · exact within_fault _

end

end Request

/-! ## Presenting the items -/

namespace Collection

@[grind ←]
theorem within_toList (ha : sc.Has a) : Within sc (toList a) :=
  within_bind (within_itemsOf ha) fun _ hxs => within_make (has_cell_list.mpr hxs)

@[grind ←]
theorem within_toJson (ha : sc.Has a) : Within sc (toJson a) := within_plain (has_ref.mpr ha)

@[grind ←]
theorem within_indentation (sc : Scope) (v : Value) : Within sc (indentation v) := by
  unfold indentation
  split
  · exact within_pure (has_inert sc _)
  · exact within_pure (has_inert sc _)
  · split
    · exact within_bind (within_repeats (has_inert sc _) _ _) fun cs _ =>
        within_pure (has_inert sc _)
    · exact within_fault _

@[grind ←]
theorem within_policySeparator (ha : sc.Has a) : Within sc (policySeparator a) := by
  unfold policySeparator
  refine within_bind (within_read ha) fun c hc => ?_
  refine within_bind (within_cell (has_collection_iff.mp hc).2.2.1) fun p hp => ?_
  split
  · exact within_pure (has_policy_iff.mp (has_cell_policy.mp hp)).2.1
  · exact within_pure (has_null sc)

section

variable {caller : Caller} (hcaller : WithinCaller sc caller)
include hcaller

@[grind ←]
theorem within_all (ha : sc.Has a) : Within sc (all caller a) :=
  within_through hcaller ha _ (has_nil sc) (within_toList ha)

@[grind ←]
theorem within_plainItems (ha : sc.Has a) : Within sc (plainItems caller a) :=
  within_through hcaller ha _ (has_nil sc) (within_toJson ha)

@[grind ←]
theorem within_stringify (ha : sc.Has a) (hv : sc.Has v) (indent : Value) :
    Within sc (stringify caller a v indent) := by
  unfold stringify
  refine within_bind (within_plainItems hcaller ha) fun plain hplain => ?_
  refine within_bind (within_indentation sc _) fun indent _ => ?_
  exact within_bind (Json.within_ofValue hcaller hv hplain) fun d _ => within_pure (has_str sc _)

@[grind ←]
theorem within_joinedBy (hv : sc.Has v) (texts : List String) :
    Within sc (joinedBy caller v texts) := by
  unfold joinedBy
  split
  · exact within_pure (has_str sc _)
  · split
    · exact within_pure (has_bytes sc _)
    · exact within_fault _
  · exact within_fault _
  · refine within_bind (within_make (has_cell_list.mpr ?_)) fun ts hts => ?_
    · exact has_map fun _ _ => has_str sc _
    · exact within_callMethod hcaller hv _ (has_cons.mpr ⟨hts, has_nil sc⟩)

@[grind ←]
theorem within_keyTexts {key : Key} (hkey : sc.Has key) (ha : sc.Has a) :
    Within sc (keyTexts caller key a) := by
  unfold keyTexts
  refine within_fold ha (fun texts item i _ hitem => ?_) (has_inert sc _)
  refine within_bind (Key.within_draw hcaller hkey hitem i) fun k hk => ?_
  split
  · exact within_pure (has_inert sc _)
  · exact within_bind (within_look fun _ _ h => ⟨h.text hk, has_inert sc _⟩) fun t _ =>
      within_pure (has_inert sc _)

/-- The texts of the keys joined by a separator that has been found. -/
theorem within_joinTexts {separator lastSeparator : Value} (hseparator : sc.Has separator)
    (hlast : sc.Has lastSeparator) (ha : sc.Has a) (hv : sc.Has v) : Within sc (do
    let key ← keyOf v
    let texts ← keyTexts caller key a
    match lastSeparator, texts.getLast? with
    | .null, _ | _, none => joinedBy caller separator texts
    | _, some final =>
      if texts.length < 2 then joinedBy caller separator texts
      else
        let front ← joinedBy caller separator texts.dropLast
        Request.joinTo caller (← Request.joinTo caller front lastSeparator) (.str final)) := by
  refine within_bind (within_keyOf hv) fun key hkey => ?_
  refine within_bind (within_keyTexts hcaller hkey ha) fun texts _ => ?_
  have hjoined := fun texts => within_joinedBy hcaller hseparator texts
  split
  · exact hjoined _
  · exact hjoined _
  · split
    · exact hjoined _
    · refine within_bind (hjoined _) fun front hfront => ?_
      refine within_bind (Request.within_joinTo hcaller hfront hlast) fun joined hjoined => ?_
      exact Request.within_joinTo hcaller hjoined (has_str sc _)

@[grind ←]
theorem within_join {separator lastSeparator : Value} (ha : sc.Has a) (hv : sc.Has v)
    (hseparator : sc.Has separator) (hlast : sc.Has lastSeparator) :
    Within sc (join caller a v separator lastSeparator) := by
  unfold join
  split
  · exact within_bind (within_policySeparator ha) fun separator hseparator =>
      within_joinTexts hcaller hseparator hlast ha hv
  · exact within_bind (within_pure hseparator) fun separator hseparator =>
      within_joinTexts hcaller hseparator hlast ha hv

@[grind ←]
theorem within_dump (ha : sc.Has a) : Within sc (dump caller a) := by
  unfold dump
  refine within_bind (within_plainItems hcaller ha) fun plain hplain => ?_
  refine within_bind (within_look fun _ _ h => ⟨h.printed hplain, has_inert sc _⟩) fun text _ => ?_
  exact within_bind (within_print text) fun _ _ => within_pure (has_ref.mpr ha)

@[grind ←]
theorem within_dumpExit (ha : sc.Has a) : Within sc (dumpExit caller a) := by
  unfold dumpExit
  exact within_bind (within_through hcaller ha _ (has_nil sc) (within_dump hcaller ha)) fun _ _ =>
    within_throw _

end

@[grind ←]
theorem within_extend (ha : sc.Has a) (hv : sc.Has v) (hw : sc.Has w) :
    Within sc (extend a v w) := by
  unfold extend
  refine within_bind (within_read ha) fun c hc => ?_
  refine within_bind (Registry.within_register (has_collection_iff.mp hc).2.2.2.1 hv hw)
    fun _ _ => ?_
  exact within_pure (has_ref.mpr ha)

end Collection

/-! ## Calls -/

instance : Scoped Call := ⟨fun sc c => sc.Has c.values⟩

instance : Scoped Arguments := ⟨fun sc a => sc.Has a.positional ∧ sc.Has a.named⟩

instance : Scoped Parameter := ⟨fun sc p => sc.Has p.default⟩

@[grind =]
theorem Scope.has_call_iff {c : Call} : sc.Has c ↔ sc.Has c.values := .rfl

@[grind =]
theorem Scope.has_arguments_iff {given : Arguments} :
    sc.Has given ↔ sc.Has given.positional ∧ sc.Has given.named := .rfl

namespace Signature

theorem has_fill (ps : List Parameter) : ∀ {given : Arguments}, sc.Has ps → sc.Has given →
    sc.Has (fill ps given) := by
  induction ps with
  | nil => exact fun _ _ => has_ok.mpr (has_nil sc)
  | cons p ps ih =>
    have hput : ∀ {x : Value} {r : Except Error (List Value)}, sc.Has x → sc.Has r →
        sc.Has (r.map (x :: ·)) := by
      intro x r hx hr
      cases r with
      | ok values => exact has_ok.mpr (has_cons.mpr ⟨hx, has_ok.mp hr⟩)
      | error e => exact has_error sc e
    rintro ⟨positional, named⟩ hps ⟨hpositional, hnamed⟩
    obtain ⟨hp, hps⟩ := has_cons.mp hps
    cases positional with
    | cons x rest =>
      obtain ⟨hx, hrest⟩ := has_cons.mp hpositional
      unfold fill
      split
      · exact has_error sc _
      · exact hput hx (ih hps ⟨hrest, hnamed⟩)
    | nil =>
      have hlater : sc.Has (fill ps ⟨[], named⟩) := ih hps ⟨has_nil sc, hnamed⟩
      unfold fill
      split
      · rename_i hfound
        exact hput (has_snd (hnamed.find? _ _ hfound)) hlater
      · rename_i hdefault
        exact hput (hp _ hdefault) hlater
      · exact has_error sc _

theorem has_bind {signature : Signature} {given : Arguments} (hparams : sc.Has signature.params)
    (hgiven : sc.Has given) : sc.Has (signature.bind given) := by
  unfold bind
  split
  · exact has_error sc _
  · split
    · exact has_error sc _
    · refine Scope.has_bind (has_fill _ hparams hgiven) fun values hvalues => ?_
      exact has_return (has_append.mpr ⟨hvalues, hgiven.1.drop _⟩)

end Signature

namespace Method

/-- What the methods take in place of arguments that are left out is null or a number. -/
theorem has_params (sc : Scope) (m : Method) : sc.Has m.signature.params := by
  cases m <;>
    simp [signature, Signature.required, Signature.optional, Has, Scoped.Held, HasValue]

theorem has_call {m : Method} {given : Arguments} (hgiven : sc.Has given) :
    sc.Has (m.call given) := by
  have hbound := Signature.has_bind (has_params sc m) hgiven
  unfold call
  cases hvalues : m.signature.bind given with
  | error e => exact has_error sc e
  | ok values =>
    rw [hvalues] at hbound
    have hcall : sc.Has (⟨m, values⟩ : Call) := has_call_iff.mpr (has_ok.mp hbound)
    exact has_ok.mpr hcall

end Method

namespace Collection

section

variable {caller : Caller} (hcaller : WithinCaller sc caller)
include hcaller

/-- Every method stays within the scope that it is called in. -/
@[grind ←]
theorem within_perform {c : Call} (ha : sc.Has a) (hc : sc.Has c) :
    Within sc (perform caller a c) := by
  obtain ⟨method, values⟩ := c
  rw [has_call_iff] at hc
  dsimp only at hc
  unfold perform
  split <;> grind

theorem within_invoke {given : Arguments} (ha : sc.Has a) (m : Method) (hgiven : sc.Has given) :
    Within sc (invoke caller a m given) :=
  within_bind (within_ofExcept (Method.has_call hgiven)) fun _ hc =>
    within_perform hcaller ha hc

end

end Collection

end Recordset
