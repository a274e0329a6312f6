import Recordset.Collection.Construct
import Recordset.Collection.Filter
import Recordset.Collection.Transform
import Recordset.Proofs.Scope.Copying
import Recordset.Proofs.Scope.Query
set_option autoImplicit false

/-!
# Methods of a collection within a scope

The methods that find items and derive collections stay within a scope when calls do.  Those
that visit items are made of visits (`Source.within_visit`), and the items of a collection of the
scope are in the scope.
-/

namespace Recordset

open Recordset.Action Recordset.Scope

variable {sc : Scope} {v w : Value} {a : Address} {xs ys args : List Value} {es : Entries}

/-! ## Visits -/

instance {σ : Type} [Scoped σ] : Scoped (Visit σ) := ⟨fun sc visit => match visit with
  | .next state => sc.Has state
  | .done state => sc.Has state⟩

@[grind =]
theorem has_next_iff {σ : Type} [Scoped σ] {state : σ} :
    sc.Has (Visit.next state) ↔ sc.Has state := .rfl

@[grind =]
theorem has_done_iff {σ : Type} [Scoped σ] {state : σ} :
    sc.Has (Visit.done state) ↔ sc.Has state := .rfl

namespace Source

variable {σ : Type} [Scoped σ]

theorem within_visitFrom {item : Nat → Action (Option Value)}
    {f : σ → Value → Nat → Action (Visit σ)} (hitem : ∀ i, Within sc (item i))
    (hf : ∀ state v i, sc.Has state → sc.Has v → Within sc (f state v i)) (fuel : Nat) :
    ∀ i {state}, sc.Has state → Within sc (visitFrom item f fuel i state) := by
  induction fuel with
  | zero => exact fun _ _ _ => within_fault _
  | succ fuel ih =>
    intro i state hstate
    unfold visitFrom
    refine within_bind (hitem i) fun found hfound => ?_
    split
    · exact within_pure hstate
    · refine within_bind (hf _ _ _ hstate (has_some.mp hfound)) fun visit hvisit => ?_
      split
      · exact ih _ hvisit
      · exact within_pure hvisit

/-- A visit stays within a scope when the visitor does, and looking for items as well. -/
@[grind ←]
theorem within_visit {source : Source} {f : σ → Value → Nat → Action (Visit σ)}
    (hsource : ∀ i, Within sc (source.item i))
    (hf : ∀ state v i, sc.Has state → sc.Has v → Within sc (f state v i)) {init : σ}
    (hinit : sc.Has init) : Within sc (source.visit init f) :=
  within_visitFrom hsource hf source.bound 0 hinit

@[grind ←]
theorem within_fold {source : Source} {f : σ → Value → Nat → Action σ}
    (hsource : ∀ i, Within sc (source.item i))
    (hf : ∀ state v i, sc.Has state → sc.Has v → Within sc (f state v i)) {init : σ}
    (hinit : sc.Has init) : Within sc (source.fold init f) :=
  within_visit hsource (fun _ _ i hstate hv => within_bind (hf _ _ i hstate hv) fun _ hnext =>
    within_pure hnext) hinit

end Source

namespace Collection

@[grind ←]
theorem within_read (ha : sc.Has a) : Within sc (read a) := by
  unfold read
  refine within_bind (within_cell ha) fun c hc => ?_
  split
  · exact within_pure (has_cell_collection.mp hc)
  · exact within_fault _

/-- The items of a collection that has been read. -/
theorem within_items {c : Collection} (hc : sc.Has c) :
    Within sc (do return (← get).store.items c) :=
  within_get_eq fun _ _ h => ⟨by rw [h.items hc], within_pure (h.closed.items hc)⟩

@[grind ←]
theorem within_itemsOf (ha : sc.Has a) : Within sc (itemsOf a) :=
  within_bind (within_read ha) fun _ hc => within_items hc

@[grind ←]
theorem within_setItems (ha : sc.Has a) (hxs : sc.Has xs) : Within sc (setItems a xs) := by
  unfold setItems
  refine within_bind (within_read ha) fun c hc => ?_
  exact within_bind (within_fillList hc.1 hxs) fun _ _ =>
    within_write ha (has_cell_collection.mpr hc)

theorem has_derive {c : Collection} (hc : sc.Has c) (ha : sc.Has a) : sc.Has (c.derive a) := by
  obtain ⟨-, hvalidators, hpolicy, hregistry, hgenerator, -⟩ := hc
  exact ⟨ha, hvalidators, hpolicy, hregistry, hgenerator, has_nil sc⟩

@[grind ←]
theorem within_derived (ha : sc.Has a) (hxs : sc.Has xs) : Within sc (derived a xs) := by
  unfold derived deriveFrom
  refine within_bind (within_bind (within_read ha) fun c hc => ?_) fun b hb =>
    within_pure (has_ref.mpr hb)
  refine within_bind (within_alloc (has_cell_list.mpr hxs)) fun list hlist => ?_
  exact within_alloc (has_cell_collection.mpr (has_derive hc hlist))

/-- The items of a collection are looked for in its cell, whenever they are visited. -/
theorem within_source_bind {β : Type} [Scoped β] {f : Source → Action β} (ha : sc.Has a)
    (hf : ∀ source : Source, (∀ i, Within sc (source.item i)) → Within sc (f source)) :
    Within sc (source a >>= f) := by
  unfold source
  rw [bind_assoc]
  refine within_bind (within_itemsOf ha) fun xs _ => hf _ fun i => ?_
  exact within_bind (within_itemsOf ha) fun ys hys => within_pure (hys.getElem? i)

section

variable {σ : Type} [Scoped σ]

@[grind ←]
theorem within_visit (ha : sc.Has a) {f : σ → Value → Nat → Action (Visit σ)}
    (hf : ∀ state v i, sc.Has state → sc.Has v → Within sc (f state v i)) {init : σ}
    (hinit : sc.Has init) : Within sc (visit a init f) :=
  within_source_bind ha fun _ hsource => Source.within_visit hsource hf hinit

@[grind ←]
theorem within_fold (ha : sc.Has a) {f : σ → Value → Nat → Action σ}
    (hf : ∀ state v i, sc.Has state → sc.Has v → Within sc (f state v i)) {init : σ}
    (hinit : sc.Has init) : Within sc (fold a init f) :=
  within_source_bind ha fun _ hsource => Source.within_fold hsource hf hinit

end

@[grind ←]
theorem within_initialItems (hv : sc.Has v) : Within sc (initialItems v) := by
  have hself : sc.Has [v] := has_cons.mpr ⟨hv, has_nil sc⟩
  unfold initialItems
  split
  · exact within_pure (has_nil sc)
  · exact within_pure hself
  · exact within_pure hself
  · refine within_get_eq fun s t h => ⟨?_, ?_⟩
    · dsimp only
      rw [h.isMapping hv, h.isIterable hv]
    · dsimp only
      split
      · exact within_pure hself
      · exact within_iterate hv

/-! ### Keys -/

instance : Scoped Key := ⟨fun sc key => match key with
  | .path p => sc.Has p
  | .callback f => sc.Has f⟩

@[grind ←]
theorem within_keyOf (hv : sc.Has v) : Within sc (keyOf v) := by
  unfold keyOf
  refine within_get_eq fun s t h => ⟨?_, within_pure ?_⟩
  · unfold Key.of
    rw [h.isCallable hv]
  · unfold Key.of
    split
    · exact hv
    · split
      · exact has_str sc Path.itself
      · exact hv

/-- One more item is kept. -/
theorem has_kept (hxs : sc.Has xs) (hv : sc.Has v) : sc.Has (xs ++ [v]) :=
  has_append.mpr ⟨hxs, has_cons.mpr ⟨hv, has_nil sc⟩⟩

@[grind ←]
theorem within_drawing {β : Type} [Scoped β] {x : Action β} (hx : Within sc x) :
    Within sc (drawing x) := by
  unfold drawing
  refine within_tryCatch hx fun e => ?_
  split
  · exact within_fault _
  · exact within_throw _

section

variable {caller : Caller} (hcaller : WithinCaller sc caller)
include hcaller

@[grind ←]
theorem within_compile (ha : sc.Has a) (hv : sc.Has v) : Within sc (compile caller a v) := by
  unfold compile
  refine within_bind (within_read ha) fun c hc => ?_
  exact Query.within_compile hcaller (has_ref.mpr (has_collection_iff.mp hc).2.1) hv

@[grind ←]
theorem Key.within_find {key : Key} (hkey : sc.Has key) (hv : sc.Has v) (index : Nat) :
    Within sc (key.find caller v index) := by
  unfold Key.find
  cases key with
  | path p => exact Path.within_value hv hkey
  | callback f =>
    refine Callback.within_call hcaller hkey 2 ?_
    exact has_cons.mpr ⟨hv, has_cons.mpr ⟨has_int sc _, has_nil sc⟩⟩

@[grind ←]
theorem Key.within_draw {key : Key} (hkey : sc.Has key) (hv : sc.Has v) (index : Nat) :
    Within sc (key.draw caller v index) :=
  within_drawing (Key.within_find hcaller hkey hv index)

@[grind ←]
theorem within_through {method : Action Value} (ha : sc.Has a) (m : Method) (hargs : sc.Has args)
    (hmethod : Within sc method) : Within sc (through caller a m args method) := by
  unfold through
  refine within_bind (within_read ha) fun c hc => ?_
  have hfield := (has_collection_iff.mp hc).2.2.2.2.2.lookup m.name
  split
  · rename_i f hf
    exact hcaller f args (hfield f hf) hargs
  · exact hmethod

@[grind ←]
theorem within_callMethod (hv : sc.Has v) (name : String) (hargs : sc.Has args) :
    Within sc (callMethod caller v name args) := by
  unfold callMethod
  refine within_bind (within_attribute? hv name) fun found hfound => ?_
  refine within_get_eq fun s t h => ⟨by rw [h.view hv], ?_⟩
  split
  · exact hcaller _ _ (has_some.mp hfound) hargs
  · exact within_fault _
  · exact within_lacking hv name

/-! ## Finding items -/

variable {e : Expression}

@[grind ←]
theorem within_matching (he : sc.Has e) (ha : sc.Has a) : Within sc (matching caller e a) := by
  unfold matching
  refine within_fold ha (fun kept v i hkept hv => ?_) (has_nil sc)
  refine within_bind (within_drawing (Expression.within_test hcaller hv i he)) fun b _ => ?_
  have hlonger := has_kept hkept hv
  split
  · exact within_pure hlonger
  · exact within_pure hkept

@[grind ←]
theorem within_filter (ha : sc.Has a) (hv : sc.Has v) : Within sc (filter caller a v) := by
  unfold filter
  refine within_bind (within_compile hcaller ha hv) fun e he => ?_
  exact within_bind (within_matching hcaller he ha) fun xs hxs => within_derived ha hxs

@[grind ←]
theorem within_select (ha : sc.Has a) (hargs : sc.Has args) : Within sc (select caller a args) := by
  unfold select
  refine within_bind (Query.within_ofShorthand hargs) fun spec hspec => ?_
  exact within_through hcaller ha _ (has_cons.mpr ⟨hspec, has_nil sc⟩)
    (within_filter hcaller ha hspec)

@[grind ←]
theorem within_except (ha : sc.Has a) (hv : sc.Has v) : Within sc (except caller a v) := by
  unfold except
  refine within_bind (within_make (has_cell_dict.mpr ?_)) fun spec hspec => ?_
  · exact has_cons.mpr ⟨⟨has_str sc _, hv⟩, has_nil sc⟩
  · exact within_through hcaller ha _ (has_cons.mpr ⟨hspec, has_nil sc⟩)
      (within_filter hcaller ha hspec)

@[grind ←]
theorem within_reject (ha : sc.Has a) (hargs : sc.Has args) : Within sc (reject caller a args) :=
  within_bind (Query.within_ofShorthand hargs) fun _ hspec => within_except hcaller ha hspec

@[grind ←]
theorem within_first (ha : sc.Has a) (hv : sc.Has v) : Within sc (first caller a v) := by
  unfold first
  split
  · exact within_bind (within_itemsOf ha) fun xs hxs =>
      within_pure (hxs.head?.getD (has_null sc))
  · refine within_bind (within_compile hcaller ha hv) fun e he => ?_
    refine within_visit ha (fun _ item i _ hitem => ?_) (has_null sc)
    refine within_bind (Expression.within_test hcaller hitem i he) fun b _ => ?_
    split
    · exact within_pure (has_done_iff.mpr hitem)
    · exact within_pure (has_next_iff.mpr (has_null sc))

@[grind ←]
theorem within_find (ha : sc.Has a) (hv : sc.Has v) : Within sc (find caller a v) :=
  within_through hcaller ha _ (has_cons.mpr ⟨hv, has_nil sc⟩) (within_first hcaller ha hv)

@[grind ←]
theorem within_lastBelow (he : sc.Has e) (ha : sc.Has a) (n : Nat) :
    Within sc (lastBelow caller e a n) := by
  induction n with
  | zero => exact within_pure (has_null sc)
  | succ n ih =>
    unfold lastBelow
    refine within_bind (within_itemsOf ha) fun xs hxs => ?_
    have hitem := hxs.getElem? n
    split
    · exact within_fault _
    · rename_i item heq
      refine within_bind (Expression.within_test hcaller (hitem item heq) n he) fun b _ => ?_
      split
      · refine within_bind (within_itemsOf ha) fun ys hys => ?_
        have hfound := hys.getElem? n
        split
        · rename_i v hv
          exact within_pure (hfound v hv)
        · exact within_fault _
      · exact ih

@[grind ←]
theorem within_last (ha : sc.Has a) (hv : sc.Has v) : Within sc (last caller a v) := by
  unfold last
  split
  · exact within_bind (within_itemsOf ha) fun xs hxs =>
      within_pure (hxs.getLast?.getD (has_null sc))
  · refine within_bind (within_compile hcaller ha hv) fun e he => ?_
    exact within_bind (within_itemsOf ha) fun xs _ => within_lastBelow hcaller he ha _

@[grind ←]
theorem within_allMatch (he : sc.Has e) (ha : sc.Has a) : Within sc (allMatch caller e a) := by
  unfold allMatch
  refine within_visit ha (fun _ item i _ hitem => ?_) (has_inert sc _)
  refine within_bind (within_drawing (Expression.within_test hcaller hitem i he)) fun b _ => ?_
  split
  · exact within_pure (has_inert sc true)
  · exact within_pure (has_inert sc false)

omit hcaller in
@[grind ←]
theorem within_allHave (ha : sc.Has a) (hv : sc.Has v) : Within sc (allHave a v) := by
  unfold allHave
  refine within_visit ha (fun _ item i _ hitem => ?_) (has_inert sc _)
  refine within_bind (Path.within_has hitem hv) fun b _ => ?_
  split
  · exact within_pure (has_inert sc true)
  · exact within_pure (has_inert sc false)

@[grind ←]
theorem within_every (ha : sc.Has a) (hargs : sc.Has args) : Within sc (every caller a args) := by
  have hanswer : ∀ {x : Action Bool}, Within sc x → Within sc (do return Value.bool (← x)) :=
    fun hx => within_bind hx fun b _ => within_pure (has_bool sc b)
  have hshorthand : Within sc (do
      let e ← compile caller a (← Query.ofShorthand args)
      return Value.bool (← allMatch caller e a)) := by
    refine within_bind (Query.within_ofShorthand hargs) fun spec hspec => ?_
    exact within_bind (within_compile hcaller ha hspec) fun e he =>
      hanswer (within_allMatch hcaller he ha)
  unfold every
  split
  · exact hanswer (within_allHave ha (has_str sc _))
  · refine within_bind (within_compile hcaller ha (has_cons.mp hargs).1) fun e he => ?_
    exact hanswer (within_allMatch hcaller he ha)
  · exact hshorthand
  · exact hshorthand
  · exact within_refuse _

/-! ## Making collections from collections -/

omit hcaller in
@[grind ←]
theorem within_collect (ha : sc.Has a) (hv : sc.Has v) : Within sc (collect a v) := by
  unfold collect
  split
  · exact within_bind (within_itemsOf ha) fun xs hxs => within_derived ha hxs
  · exact within_bind (within_initialItems hv) fun xs hxs => within_derived ha hxs

@[grind ←]
theorem within_clone (ha : sc.Has a) : Within sc (clone caller a) :=
  within_through hcaller ha _ (has_nil sc) (within_collect ha (has_null sc))

@[grind ←]
theorem within_map (ha : sc.Has a) (hv : sc.Has v) : Within sc (map caller a v) := by
  unfold map
  refine within_bind (within_fold ha (fun results item i hresults hitem => ?_) (has_nil sc))
    fun xs hxs => within_derived ha hxs
  have hoffered : sc.Has [item, .int i] := by simp [hitem]
  refine within_bind (within_drawing (Callback.within_call hcaller hv 2 hoffered)) fun w hw => ?_
  exact within_pure (has_kept hresults hw)

@[grind ←]
theorem within_eachOf (hv : sc.Has v) (hxs : sc.Has xs) :
    ∀ i, Within sc (eachOf caller v i xs) := by
  induction xs with
  | nil => exact fun _ => within_pure (has_inert sc _)
  | cons item rest ih =>
    intro i
    obtain ⟨hitem, hrest⟩ := has_cons.mp hxs
    have hoffered : sc.Has [item, .int i] := by simp [hitem]
    unfold eachOf
    refine within_bind (Callback.within_call hcaller hv 2 hoffered) fun w _ => ?_
    split
    · exact within_pure (has_inert sc _)
    · exact ih hrest _

@[grind ←]
theorem within_each (ha : sc.Has a) (hv : sc.Has v) : Within sc (each caller a v) := by
  unfold each
  refine within_bind (within_itemsOf ha) fun xs hxs => ?_
  exact within_bind (within_eachOf hcaller hv hxs 0) fun _ _ => within_pure (has_ref.mpr ha)

instance : Scoped Seen := ⟨fun sc seen => sc.Has seen.keys ∧ sc.Has seen.others ∧ sc.Has seen.kept⟩

omit hcaller in
/-- What has been seen of the keys is the same in stores that are the same on the scope. -/
theorem within_add {seen : Seen} (hseen : sc.Has seen) (hv : sc.Has v) (hw : sc.Has w) :
    Within sc (look fun s => Seen.add s seen v w) := by
  obtain ⟨hkeys, hothers, hkept⟩ := hseen
  refine within_look fun s t h => ?_
  unfold Seen.add
  rw [h.isKey hv, h.anyEqual hv hothers, any_congr fun k hk => h.sameKey (hkeys.mem hk) hv]
  refine ⟨rfl, ?_⟩
  split
  · split
    · exact has_ok.mpr ⟨hkeys, hothers, hkept⟩
    · exact has_ok.mpr ⟨has_kept hkeys hv, hothers, has_kept hkept hw⟩
  · refine has_bind (has_inert sc _) fun b _ => ?_
    split
    · exact has_return ⟨hkeys, hothers, hkept⟩
    · exact has_return ⟨hkeys, has_kept hothers hv, has_kept hkept hw⟩

@[grind ←]
theorem within_unique (ha : sc.Has a) (hv : sc.Has v) : Within sc (unique caller a v) := by
  unfold unique
  refine within_bind (within_keyOf hv) fun key hkey => ?_
  refine within_bind (within_fold ha (fun seen item i hseen hitem => ?_) ?_) fun seen hseen =>
    within_derived ha hseen.2.2
  · exact within_bind (Key.within_find hcaller hkey hitem i) fun k hk => within_add hseen hk hitem
  · exact ⟨has_nil sc, has_nil sc, has_nil sc⟩

omit hcaller in
theorem has_pieces (size : Nat) : ∀ (fuel : Nat) {xs : List Value}, sc.Has xs →
    sc.Has (pieces size fuel xs) := by
  intro fuel
  induction fuel with
  | zero => exact fun _ => has_nil sc
  | succ fuel ih =>
    intro xs hxs
    unfold pieces
    split
    · exact has_nil sc
    · exact has_cons.mpr ⟨hxs.take _, ih (hxs.drop _)⟩

omit hcaller in
@[grind ←]
theorem within_chunk (ha : sc.Has a) (hv : sc.Has v) : Within sc (chunk a v) := by
  have hrefused : Within sc (chunk.refused v) := by
    unfold chunk.refused
    exact within_bind (within_look fun _ _ h => ⟨h.shown hv, has_inert sc _⟩) fun _ _ =>
      within_refuse _
  unfold chunk
  split
  · split
    · refine within_bind (within_itemsOf ha) fun xs hxs => ?_
      exact within_bind (within_mapM (has_pieces _ _ hxs) fun ys hys => within_derived ha hys)
        fun parts hparts => within_derived ha hparts
    · exact hrefused
  · exact hrefused

omit hcaller in
theorem has_slice (hxs : sc.Has xs) (low high : Option Int) : sc.Has (Slice.take xs low high) :=
  (hxs.take _).drop _

omit hcaller in
theorem within_bound (sc : Scope) (v : Value) : Within sc (Action.ofExcept (sliceBound v)) :=
  within_ofExcept (has_inert sc _)

omit hcaller in
@[grind ←]
theorem within_slice (ha : sc.Has a) (start stop : Value) : Within sc (slice a start stop) := by
  unfold slice
  refine within_bind (within_bound sc start) fun low _ => ?_
  refine within_bind (within_bound sc stop) fun high _ => ?_
  exact within_bind (within_itemsOf ha) fun xs hxs => within_derived ha (has_slice hxs low high)

omit hcaller in
theorem has_takeEvery (hxs : sc.Has xs) (low high : Option Int) (step : Int) :
    sc.Has (Slice.takeEvery xs low high step) :=
  has_filterMap fun i _ => hxs.getElem? i

omit hcaller in
@[grind ←]
theorem within_everyOf (hxs : sc.Has xs) (start stop step : Value) :
    Within sc (everyOf xs start stop step) := by
  unfold everyOf
  refine within_bind (within_bound sc start) fun low _ => ?_
  refine within_bind (within_bound sc stop) fun high _ => ?_
  refine within_bind (within_bound sc step) fun apart _ => ?_
  split
  · exact within_fault _
  · exact within_pure (has_takeEvery hxs _ _ _)

omit hcaller in
@[grind ←]
theorem within_sliceEvery (ha : sc.Has a) (start stop step : Value) :
    Within sc (sliceEvery a start stop step) := by
  unfold sliceEvery
  refine within_bind (within_itemsOf ha) fun xs hxs => ?_
  exact within_bind (within_everyOf hxs start stop step) fun ys hys => within_derived ha hys

omit hcaller in
@[grind ←]
theorem within_reverse (ha : sc.Has a) : Within sc (reverse a) :=
  within_bind (within_itemsOf ha) fun _ hxs => within_derived ha hxs.reverse

omit hcaller in
@[grind ←]
theorem within_concatAll (hys : sc.Has ys) : ∀ {xs : List Value}, sc.Has xs →
    Within sc (concatAll xs ys) := by
  induction ys with
  | nil => exact fun hxs => within_pure hxs
  | cons v vs ih =>
    intro xs hxs
    obtain ⟨hv, hvs⟩ := has_cons.mp hys
    exact within_bind (within_initialItems hv) fun zs hzs => ih hvs (has_append.mpr ⟨hxs, hzs⟩)

omit hcaller in
@[grind ←]
theorem within_concat (ha : sc.Has a) (hys : sc.Has ys) : Within sc (concat a ys) := by
  unfold concat
  refine within_bind (within_itemsOf ha) fun xs hxs => ?_
  exact within_bind (within_concatAll hys hxs) fun zs hzs => within_derived ha hzs

omit hcaller in
theorem addMissing_eq {s t : Store} (h : sc.SameStore s t) (hys : sc.Has ys) :
    ∀ {xs : List Value}, sc.Has xs → addMissing s xs ys = addMissing t xs ys := by
  induction ys with
  | nil => exact fun _ => rfl
  | cons v vs ih =>
    intro xs hxs
    obtain ⟨hv, hvs⟩ := has_cons.mp hys
    rw [addMissing, addMissing, h.anyEqual hv hxs, ih hvs hxs, ih hvs (has_kept hxs hv)]

omit hcaller in
theorem has_addMissing {s : Store} (hys : sc.Has ys) : ∀ {xs : List Value}, sc.Has xs →
    sc.Has (addMissing s xs ys) := by
  induction ys with
  | nil => exact fun hxs => has_return hxs
  | cons v vs ih =>
    intro xs hxs
    obtain ⟨hv, hvs⟩ := has_cons.mp hys
    rw [addMissing]
    refine has_bind (has_inert sc _) fun b _ => ?_
    split
    · exact ih hvs hxs
    · exact ih hvs (has_kept hxs hv)

omit hcaller in
@[grind ←]
theorem within_union (ha : sc.Has a) (hv : sc.Has v) : Within sc (union a v) := by
  unfold union
  refine within_bind (within_itemsOf ha) fun xs hxs => ?_
  refine within_bind (within_initialItems hv) fun ys hys => ?_
  exact within_bind (within_look fun _ _ h => ⟨addMissing_eq h hys hxs, has_addMissing hys hxs⟩)
    fun zs hzs => within_derived ha hzs

omit hcaller in
@[grind ←]
theorem within_belowOne (hv : sc.Has v) : Within sc (belowOne v) :=
  within_compare .less hv (has_int sc 1)

omit hcaller in
@[grind ←]
theorem within_whole (sc : Scope) (v : Value) : Within sc (whole v) := by
  unfold whole
  split
  · exact within_pure (has_inert sc _)
  · exact within_fault _

omit hcaller in
/-- A page, once it is known whether its number or its size is too low. -/
theorem within_page (ha : sc.Has a) {page size : Value} (hpage : sc.Has page)
    (hsize : sc.Has size) (tooLow : Bool) : Within sc (
      if tooLow then do
        Action.refuse
          (.page (← Action.look (Store.text · page)) (← Action.look (Store.text · size)))
      else do
        let number ← whole page
        let size ← whole size
        let items ← itemsOf a
        let part ← derived a (Slice.take items (some ((number - 1) * size)) (some (number * size)))
        let prev := if number ≤ 1 then .bool false else .int (number - 1)
        let next := if number * size < items.length then .int (number + 1) else .bool false
        Action.make (.dict [(.str "items", part), (.str "prev", prev), (.str "next", next)])) := by
  have htext : ∀ {v : Value}, sc.Has v → Within sc (look (Store.text · v)) := fun hv =>
    within_look fun _ _ h => ⟨h.text hv, has_inert sc _⟩
  split
  · exact within_bind (htext hpage) fun _ _ => within_bind (htext hsize) fun _ _ => within_refuse _
  · refine within_bind (within_whole sc page) fun number _ => ?_
    refine within_bind (within_whole sc size) fun count _ => ?_
    refine within_bind (within_itemsOf ha) fun items hitems => ?_
    refine within_bind (within_derived ha (has_slice hitems _ _)) fun part hpart => ?_
    refine within_make (has_cell_dict.mpr ?_)
    simp only [has_cons, has_pair, has_str, hpart, has_nil, true_and, and_true]
    grind

omit hcaller in
@[grind ←]
theorem within_paginate (ha : sc.Has a) (hv : sc.Has v) (hw : sc.Has w) :
    Within sc (paginate a v w) := by
  unfold paginate
  refine within_bind (within_read ha) fun c hc => ?_
  split
  · refine within_bind (within_cell (has_collection_iff.mp hc).2.2.1) fun p hp => ?_
    split
    · have hsize := (has_cell_policy.mp hp).1
      refine within_bind (within_pure hsize) fun size hsize => ?_
      refine within_bind (within_belowOne hv) fun low _ => ?_
      split
      · exact within_bind (within_pure (has_inert sc _)) fun _ _ => within_page ha hv hsize _
      · exact within_bind (within_belowOne hsize) fun _ _ => within_page ha hv hsize _
    · refine within_bind (within_pure (has_null sc)) fun size hsize => ?_
      refine within_bind (within_belowOne hv) fun low _ => ?_
      split
      · exact within_bind (within_pure (has_inert sc _)) fun _ _ => within_page ha hv hsize _
      · exact within_bind (within_belowOne hsize) fun _ _ => within_page ha hv hsize _
  · refine within_bind (within_pure hw) fun size hsize => ?_
    refine within_bind (within_belowOne hv) fun low _ => ?_
    split
    · exact within_bind (within_pure (has_inert sc _)) fun _ _ => within_page ha hv hsize _
    · exact within_bind (within_belowOne hsize) fun _ _ => within_page ha hv hsize _

omit hcaller in
theorem has_draw (count : Nat) : ∀ (g : Generator) {xs : List Value}, sc.Has xs →
    sc.Has (draw count g xs).1 := by
  induction count with
  | zero => exact fun _ _ _ => has_nil sc
  | succ count ih =>
    intro g xs hxs
    unfold draw
    split
    · exact has_nil sc
    · exact has_append.mpr ⟨(hxs.getElem? _).toList, ih _ (hxs.eraseIdx _)⟩

omit hcaller in
@[grind ←]
theorem within_drawFrom (ha : sc.Has a) (count : Nat) : Within sc (drawFrom a count) := by
  unfold drawFrom
  refine within_bind (within_read ha) fun c hc => ?_
  have hgenerator := (has_collection_iff.mp hc).2.2.2.2.1
  refine within_bind (within_cell hgenerator) fun g _ => ?_
  split
  · refine within_get_eq fun s t h => ⟨by rw [h.items hc], ?_⟩
    refine within_bind (within_write hgenerator (has_cell_generator sc _)) fun _ _ => ?_
    exact within_pure (has_draw count _ (h.closed.items hc))
  · exact within_fault _

omit hcaller in
@[grind ←]
theorem within_random (ha : sc.Has a) (hv : sc.Has v) : Within sc (random a v) := by
  unfold random
  split
  · exact within_bind (within_drawFrom ha 1) fun xs hxs =>
      within_pure (hxs.head?.getD (has_null sc))
  · refine within_bind (within_itemsOf ha) fun xs _ => ?_
    refine within_bind (within_look fun s t h => ⟨?_, has_inert sc _⟩) fun n _ =>
      within_bind (within_drawFrom ha n) fun ys hys => within_derived ha hys
    unfold drawCount
    rw [h.compare .less (has_int sc _) hv]
    refine except_bind_congr fun b _ => ?_
    dsimp only
    split
    · simp only [pure_bind, h.compare .greater (has_int sc _) (has_int sc _)]
    · simp only [pure_bind, h.compare .greater hv (has_int sc _)]

end

end Collection

end Recordset
