import Recordset.Proofs.Obeys.Query
set_option autoImplicit false

/-!
# Methods that change no collection obey

The methods that find, derive, summarise and present items obey every frame when calls do: what they
make besides plain cells are collections over lists of their own.  Those that visit items are made
of visits (`Source.obeys_visit`).
-/

namespace Recordset

open Recordset.Action

variable {R : State → State → Prop} [State.Base R]

/-! ## Visits -/

namespace Source

variable {σ : Type}

theorem obeys_visitFrom {item : Nat → Action (Option Value)}
    {f : σ → Value → Nat → Action (Visit σ)} (hitem : ∀ i, Obeys R (item i))
    (hf : ∀ state v i, Obeys R (f state v i)) (fuel : Nat) :
    ∀ i state, Obeys R (visitFrom item f fuel i state) := by
  induction fuel with
  | zero => exact fun i state => obeys_fault _
  | succ fuel ih =>
    intro i state
    unfold visitFrom
    grind

/-- A visit obeys when the visitor does, and looking for items as well. -/
@[grind ←]
theorem obeys_visit {source : Source} {f : σ → Value → Nat → Action (Visit σ)}
    (hsource : ∀ i, Obeys R (source.item i)) (hf : ∀ state v i, Obeys R (f state v i)) (init : σ) :
    Obeys R (source.visit init f) :=
  obeys_visitFrom hsource hf source.bound 0 init

@[grind ←]
theorem obeys_fold {source : Source} {f : σ → Value → Nat → Action σ}
    (hsource : ∀ i, Obeys R (source.item i)) (hf : ∀ state v i, Obeys R (f state v i)) (init : σ) :
    Obeys R (source.fold init f) := by
  unfold fold
  grind

/-! ### Folds over the items -/

section

variable {source : Source} (hsource : ∀ i, Obeys R (source.item i))
include hsource

theorem obeys_grouped {key : KeyFinder} (hkey : ∀ v i, Obeys R (key v i)) :
    Obeys R (source.grouped key) := by
  unfold grouped bucketOf
  grind

theorem obeys_counted {key : KeyFinder} (hkey : ∀ v i, Obeys R (key v i)) :
    Obeys R (source.counted key) := by
  unfold counted bucketOf
  grind

theorem obeys_filed {key : KeyFinder} (hkey : ∀ v i, Obeys R (key v i)) :
    Obeys R (source.filed key) := by
  unfold filed
  grind

theorem obeys_parted {test : Value → Nat → Action Bool} (htest : ∀ v i, Obeys R (test v i)) :
    Obeys R (source.parted test) := by
  unfold parted
  grind

theorem obeys_summed {key : KeyFinder} (hkey : ∀ v i, Obeys R (key v i)) :
    Obeys R (source.summed key) := by
  unfold summed
  grind

theorem obeys_extreme {key : KeyFinder} (hkey : ∀ v i, Obeys R (key v i)) (c : Comparison) :
    Obeys R (source.extreme c key) := by
  unfold extreme
  grind

end

end Source

namespace Collection

@[grind ←]
theorem obeys_read (a : Address) : Obeys R (read a) := by
  unfold read
  grind

/-- A collection is read without a change. -/
theorem obeysFrom_read_bind {α : Type} {s : State} {a : Address} {f : Collection → Action α}
    (hf : ∀ c : Collection, s.store.cell? a = some (.collection c) → ObeysFrom R s (f c)) :
    ObeysFrom R s (read a >>= f) := by
  unfold read
  rw [bind_assoc]
  refine obeysFrom_cell_bind fun c hc => ?_
  cases c with
  | collection c => exact hf c hc
  | _ => exact obeysFrom_idle rfl

theorem obeys_read_bind {α : Type} {a : Address} {f : Collection → Action α}
    (hf : ∀ (c : Collection) (s : State), s.store.cell? a = some (.collection c) →
      ObeysFrom R s (f c)) : Obeys R (read a >>= f) :=
  fun s => obeysFrom_read_bind fun c => hf c s

/-- The items are looked at without a change. -/
theorem obeysFrom_itemsOf_bind {α : Type} {s : State} {a : Address}
    {f : List Value → Action α}
    (hf : ∀ xs, ObeysFrom R s (f xs)) : ObeysFrom R s (itemsOf a >>= f) := by
  unfold itemsOf
  rw [bind_assoc]
  refine obeysFrom_read_bind fun c _ => ?_
  rw [bind_assoc]
  exact obeysFrom_get_bind (hf _)

@[grind ←]
theorem obeys_itemsOf (a : Address) : Obeys R (itemsOf a) := by
  unfold itemsOf
  grind

@[grind ←]
theorem obeys_derived (a : Address) [State.Deriver R a] (xs : List Value) :
    Obeys R (derived a xs) := by
  unfold derived deriveFrom
  exact obeys_bind (obeys_read_bind fun c s hc => State.Deriver.derive xs hc) fun b => obeys_pure _

/-- The items of a collection are looked for in its cell, whenever they are visited. -/
theorem obeys_source_bind {α : Type} {a : Address} {f : Source → Action α}
    (hf : ∀ source : Source, (∀ i, Obeys R (source.item i)) → Obeys R (f source)) :
    Obeys R (source a >>= f) := by
  unfold source
  rw [bind_assoc]
  refine obeys_bind (obeys_itemsOf a) fun xs => hf _ fun i => ?_
  exact obeys_bind (obeys_itemsOf a) fun ys => obeys_pure _

@[grind ←]
theorem obeys_visit {σ : Type} {f : σ → Value → Nat → Action (Visit σ)}
    (hf : ∀ state v i, Obeys R (f state v i)) (a : Address) (init : σ) :
    Obeys R (visit a init f) := by
  unfold visit
  exact obeys_source_bind fun source hsource => Source.obeys_visit hsource hf init

@[grind ←]
theorem obeys_fold {σ : Type} {f : σ → Value → Nat → Action σ}
    (hf : ∀ state v i, Obeys R (f state v i)) (a : Address) (init : σ) :
    Obeys R (fold a init f) := by
  unfold fold
  exact obeys_source_bind fun source hsource => Source.obeys_fold hsource hf init

@[grind ←]
theorem obeys_initialItems (v : Value) : Obeys R (initialItems v) := by
  unfold initialItems
  grind

@[grind ←]
theorem obeys_entryOf (v : Value) : Obeys R (entryOf v) := by
  unfold entryOf
  grind

@[grind ←]
theorem obeys_copyValidators (v : Value) : Obeys R (copyValidators v) := by
  unfold copyValidators
  grind

section

variable {F : State → State → Prop} [State.Frame F]

@[grind ←]
theorem obeys_newRegistry (given : Option Address) : Obeys F (newRegistry given) := by
  unfold newRegistry
  grind

@[grind ←]
theorem obeys_construct (items validators : Value) (policy registry : Option Address) :
    Obeys F (construct items validators policy registry) := by
  unfold construct
  refine obeys_bind (obeys_initialItems items) fun xs => ?_
  refine obeys_bind (obeys_copyValidators validators) fun es => ?_
  refine obeys_bind (obeys_newRegistry registry) fun r => ?_
  refine obeys_bind (Policy.obeys_read _) fun p => ?_
  refine obeys_bind (Policy.obeys_newGenerator p) fun g => ?_
  exact Action.obeys_collect xs (fun _ => rfl) fun _ => rfl

end

@[grind ←]
theorem obeys_keyOf (v : Value) : Obeys R (keyOf v) := by
  unfold keyOf
  grind

@[grind ←]
theorem obeys_drawing {α : Type} {x : Action α} (hx : Obeys R x) : Obeys R (drawing x) := by
  unfold drawing
  grind

section

variable {caller : Caller} (hcaller : ObeysCaller R caller)
include hcaller

@[grind ←]
theorem obeys_compile (a : Address) (spec : Value) : Obeys R (compile caller a spec) := by
  unfold compile
  grind

@[grind ←]
theorem Key.obeys_find (key : Key) (item : Value) (index : Nat) :
    Obeys R (key.find caller item index) := by
  unfold Key.find
  grind

@[grind ←]
theorem Key.obeys_draw (key : Key) (item : Value) (index : Nat) :
    Obeys R (key.draw caller item index) := by
  unfold Key.draw
  grind

@[grind ←]
theorem obeys_through {method : Action Value} (hmethod : Obeys R method) (a : Address) (m : Method)
    (args : List Value) : Obeys R (through caller a m args method) := by
  unfold through
  grind

@[grind ←]
theorem obeys_callMethod (v : Value) (name : String) (args : List Value) :
    Obeys R (callMethod caller v name args) := by
  unfold callMethod
  grind

/-! ## Finding items -/

@[grind ←]
theorem obeys_matching (e : Expression) (a : Address) : Obeys R (matching caller e a) := by
  unfold matching
  grind

@[grind ←]
theorem obeys_filter (a : Address) [State.Deriver R a] (spec : Value) :
    Obeys R (filter caller a spec) := by
  unfold filter
  grind

@[grind ←]
theorem obeys_select (a : Address) [State.Deriver R a] (args : List Value) :
    Obeys R (select caller a args) := by
  unfold select
  grind

@[grind ←]
theorem obeys_except (a : Address) [State.Deriver R a] (spec : Value) :
    Obeys R (except caller a spec) := by
  unfold except
  grind

@[grind ←]
theorem obeys_reject (a : Address) [State.Deriver R a] (args : List Value) :
    Obeys R (reject caller a args) := by
  unfold reject
  grind

@[grind ←]
theorem obeys_first (a : Address) (spec : Value) : Obeys R (first caller a spec) := by
  unfold first
  grind

@[grind ←]
theorem obeys_find (a : Address) (spec : Value) : Obeys R (find caller a spec) := by
  unfold find
  grind

@[grind ←]
theorem obeys_lastBelow (e : Expression) (a : Address) (n : Nat) :
    Obeys R (lastBelow caller e a n) := by
  induction n with
  | zero => exact obeys_pure _
  | succ n ih =>
    unfold lastBelow
    grind

@[grind ←]
theorem obeys_last (a : Address) (spec : Value) : Obeys R (last caller a spec) := by
  unfold last
  grind

@[grind ←]
theorem obeys_allMatch (e : Expression) (a : Address) : Obeys R (allMatch caller e a) := by
  unfold allMatch
  grind

omit hcaller in
@[grind ←]
theorem obeys_allHave (a : Address) (path : Value) : Obeys R (allHave a path) := by
  unfold allHave
  grind

@[grind ←]
theorem obeys_every (a : Address) (args : List Value) : Obeys R (every caller a args) := by
  unfold every
  grind

/-! ## Making collections from collections -/

omit hcaller in
@[grind ←]
theorem obeys_collect (a : Address) [State.Deriver R a] (v : Value) : Obeys R (collect a v) := by
  unfold collect
  grind

@[grind ←]
theorem obeys_clone (a : Address) [State.Deriver R a] : Obeys R (clone caller a) := by
  unfold clone
  grind

@[grind ←]
theorem obeys_map (a : Address) [State.Deriver R a] (f : Value) : Obeys R (map caller a f) := by
  unfold map
  grind

@[grind ←]
theorem obeys_eachOf (f : Value) (xs : List Value) : ∀ i, Obeys R (eachOf caller f i xs) := by
  induction xs with
  | nil => exact fun i => obeys_pure _
  | cons x xs ih =>
    intro i
    unfold eachOf
    grind

@[grind ←]
theorem obeys_each (a : Address) (f : Value) : Obeys R (each caller a f) := by
  unfold each
  grind

@[grind ←]
theorem obeys_unique (a : Address) [State.Deriver R a] (keyOrFn : Value) :
    Obeys R (unique caller a keyOrFn) := by
  unfold unique
  grind

omit hcaller in
@[grind ←]
theorem obeys_chunk (a : Address) [State.Deriver R a] (size : Value) : Obeys R (chunk a size) := by
  unfold chunk chunk.refused
  grind

omit hcaller in
@[grind ←]
theorem obeys_slice (a : Address) [State.Deriver R a] (start stop : Value) :
    Obeys R (slice a start stop) := by
  unfold slice
  grind

omit hcaller in
@[grind ←]
theorem obeys_everyOf (xs : List Value) (start stop step : Value) :
    Obeys R (everyOf xs start stop step) := by
  unfold everyOf
  grind

omit hcaller in
@[grind ←]
theorem obeys_sliceEvery (a : Address) [State.Deriver R a] (start stop step : Value) :
    Obeys R (sliceEvery a start stop step) := by
  unfold sliceEvery
  grind

omit hcaller in
@[grind ←]
theorem obeys_reverse (a : Address) [State.Deriver R a] : Obeys R (reverse a) := by
  unfold reverse
  grind

omit hcaller in
@[grind ←]
theorem obeys_concatAll (others : List Value) : ∀ xs, Obeys R (concatAll xs others) := by
  induction others with
  | nil => exact fun xs => obeys_pure xs
  | cons v vs ih =>
    intro xs
    unfold concatAll
    grind

omit hcaller in
@[grind ←]
theorem obeys_concat (a : Address) [State.Deriver R a] (others : List Value) :
    Obeys R (concat a others) := by
  unfold concat
  grind

omit hcaller in
@[grind ←]
theorem obeys_union (a : Address) [State.Deriver R a] (other : Value) :
    Obeys R (union a other) := by
  unfold union
  grind

omit hcaller in
@[grind ←]
theorem obeys_belowOne (v : Value) : Obeys R (belowOne v) := by
  unfold belowOne
  grind

omit hcaller in
@[grind ←]
theorem obeys_whole (v : Value) : Obeys R (whole v) := by
  unfold whole
  grind

omit hcaller in
@[grind ←]
theorem obeys_paginate (a : Address) [State.Deriver R a] (page perPage : Value) :
    Obeys R (paginate a page perPage) := by
  unfold paginate
  refine obeys_bind (obeys_read a) fun c => ?_
  split
  · refine obeys_bind (obeys_cell c.policy) fun p => ?_
    split
    · refine obeys_bind (obeys_pure _) fun size => obeys_bind (obeys_belowOne page) fun low => ?_
      split <;> grind
    · refine obeys_bind (obeys_pure _) fun size => obeys_bind (obeys_belowOne page) fun low => ?_
      split <;> grind
  · refine obeys_bind (obeys_pure _) fun size => obeys_bind (obeys_belowOne page) fun low => ?_
    split <;> grind

omit hcaller in
/-- Drawing items writes the generator that has just been read. -/
@[grind ←]
theorem obeys_drawFrom (a : Address) (count : Nat) : Obeys R (drawFrom a count) := by
  unfold drawFrom
  refine obeys_bind (obeys_read a) fun c => obeys_cell_bind fun g s hg => ?_
  cases g with
  | generator g =>
    refine obeysFrom_get_bind ?_
    exact obeysFrom_bind (obeysFrom_pass hg (.generator g _) rfl) fun _ => obeys_pure _
  | _ => exact obeys_fault _ s

omit hcaller in
@[grind ←]
theorem obeys_random (a : Address) [State.Deriver R a] (count : Value) :
    Obeys R (random a count) := by
  unfold random
  grind

/-! ## Summaries -/

omit hcaller in
@[grind ←]
theorem obeys_bucketEntries (buckets : Aggregate.Buckets Value) :
    Obeys R (bucketEntries buckets) := by
  unfold bucketEntries
  grind

@[grind ←]
theorem obeys_groupBy (a : Address) [State.Deriver R a] (keyOrFn : Value) :
    Obeys R (groupBy caller a keyOrFn) := by
  unfold groupBy
  refine obeys_bind (obeys_keyOf keyOrFn) fun key => obeys_source_bind fun source hsource => ?_
  refine obeys_bind (Source.obeys_grouped hsource (Key.obeys_find hcaller key)) fun groups => ?_
  refine obeys_bind (obeys_mapM (fun group => ?_) groups) fun buckets =>
    obeys_bucketEntries buckets
  exact obeys_bind (obeys_derived a group.2) fun v => obeys_pure (group.1, v)

@[grind ←]
theorem obeys_countBy (a : Address) (keyOrFn : Value) : Obeys R (countBy caller a keyOrFn) := by
  unfold countBy
  refine obeys_bind (obeys_keyOf keyOrFn) fun key => obeys_source_bind fun source hsource => ?_
  exact obeys_bind (Source.obeys_counted hsource (Key.obeys_find hcaller key)) fun counts =>
    obeys_bucketEntries _

@[grind ←]
theorem obeys_keyBy (a : Address) (keyOrFn : Value) : Obeys R (keyBy caller a keyOrFn) := by
  unfold keyBy
  refine obeys_bind (obeys_keyOf keyOrFn) fun key => obeys_source_bind fun source hsource => ?_
  exact obeys_bind (Source.obeys_filed hsource (Key.obeys_find hcaller key)) fun es =>
    obeys_make rfl

@[grind ←]
theorem obeys_partition (a : Address) [State.Deriver R a] (spec : Value) :
    Obeys R (partition caller a spec) := by
  unfold partition
  refine obeys_bind (obeys_compile hcaller a spec) fun e =>
    obeys_source_bind fun source hsource => ?_
  refine obeys_bind (Source.obeys_parted hsource fun v i => Expression.obeys_test hcaller v i e)
    fun parts => ?_
  grind

@[grind ←]
theorem obeys_reduce (a : Address) (f initial : Value) : Obeys R (reduce caller a f initial) := by
  unfold reduce
  refine obeys_source_bind fun source hsource => ?_
  unfold Source.reduced
  grind

omit hcaller in
@[grind ←]
theorem obeys_result (sum : Aggregate.Sum) : Obeys R sum.result := obeys_number _

omit hcaller in
@[grind ←]
theorem obeys_average (sum : Aggregate.Sum) : Obeys R sum.average := by
  unfold Aggregate.Sum.average
  grind

@[grind ←]
theorem obeys_sum (a : Address) (keyOrFn : Value) : Obeys R (sum caller a keyOrFn) := by
  unfold sum
  refine obeys_bind (obeys_keyOf keyOrFn) fun key => obeys_source_bind fun source hsource => ?_
  exact obeys_bind (Source.obeys_summed hsource (Key.obeys_draw hcaller key)) obeys_result

@[grind ←]
theorem obeys_avg (a : Address) (keyOrFn : Value) : Obeys R (avg caller a keyOrFn) := by
  unfold avg
  refine obeys_bind (obeys_keyOf keyOrFn) fun key => obeys_source_bind fun source hsource => ?_
  exact obeys_bind (Source.obeys_summed hsource (Key.obeys_draw hcaller key)) obeys_average

@[grind ←]
theorem obeys_extreme (c : Comparison) (a : Address) (keyOrFn : Value) :
    Obeys R (extreme caller c a keyOrFn) := by
  unfold extreme
  refine obeys_bind (obeys_keyOf keyOrFn) fun key => obeys_source_bind fun source hsource => ?_
  exact Source.obeys_extreme hsource (Key.obeys_draw hcaller key) c

@[grind ←]
theorem obeys_count (a : Address) [State.Deriver R a] (spec : Value) :
    Obeys R (count caller a spec) := by
  unfold count
  grind

end

end Collection

/-! ## Requests -/

namespace Request

@[grind ←]
theorem obeys_partOf_ref (a : Address) [State.Deriver R a] (start stop step : Value) :
    Obeys R (partOf (.ref a) start stop step) := by
  unfold partOf
  grind

@[grind ←]
theorem obeys_partOf [∀ b, State.Deriver R b] (v start stop step : Value) :
    Obeys R (partOf v start stop step) := by
  cases v with
  | ref a => exact obeys_partOf_ref a start stop step
  | _ => exact obeys_bind obeys_get fun s => obeys_fault _

@[grind ←]
theorem obeys_backwardsOf (v : Value) : Obeys R (backwardsOf v) := by
  unfold backwardsOf
  grind

variable {caller : Caller} (hcaller : ObeysCaller R caller)
include hcaller

@[grind ←]
theorem obeys_joinTo_ref (a : Address) [State.Deriver R a] (other : Value) :
    Obeys R (joinTo caller (.ref a) other) := by
  unfold joinTo
  grind

@[grind ←]
theorem obeys_joinTo [∀ b, State.Deriver R b] (v other : Value) :
    Obeys R (joinTo caller v other) := by
  cases v with
  | ref a => exact obeys_joinTo_ref hcaller a other
  | _ => exact obeys_bind obeys_get fun s => obeys_binary _ _ _

end Request

/-! ## Presenting a collection -/

namespace Json

@[grind ←]
theorem obeys_key (v : Value) : Obeys R (key v) := by
  unfold key
  grind

theorem obeys_ofAll {document : Value → Action Json} (hdocument : ∀ v, Obeys R (document v))
    (vs : List Value) : Obeys R (ofAll document vs) := by
  induction vs with
  | nil => exact obeys_pure []
  | cons v vs ih =>
    unfold ofAll
    grind

theorem obeys_ofEntries {document : Value → Action Json} (hdocument : ∀ v, Obeys R (document v))
    (es : Entries) : Obeys R (ofEntries document es) := by
  induction es with
  | nil => exact obeys_pure []
  | cons e es ih =>
    obtain ⟨k, v⟩ := e
    unfold ofEntries
    grind

variable {caller : Caller} (hcaller : ObeysCaller R caller)
include hcaller

theorem obeys_substitute (default v : Value) : Obeys R (substitute caller default v) := by
  unfold substitute
  grind

theorem obeys_ofValueAt (default : Value) (fuel : Nat) :
    ∀ outer v, Obeys R (ofValueAt caller default fuel outer v) := by
  induction fuel with
  | zero => exact fun outer v => obeys_fault _
  | succ fuel ih =>
    intro outer v
    unfold ofValueAt
    grind [obeys_ofAll, obeys_ofEntries, obeys_substitute]

@[grind ←]
theorem obeys_ofValue (default v : Value) : Obeys R (ofValue caller default v) := by
  unfold ofValue
  grind [obeys_ofValueAt]

end Json

namespace Collection

@[grind ←]
theorem obeys_toList (a : Address) : Obeys R (toList a) := by
  unfold toList
  grind

@[grind ←]
theorem obeys_toJson (a : Address) : Obeys R (toJson a) := by
  unfold toJson
  grind

@[grind ←]
theorem obeys_indentation (v : Value) : Obeys R (indentation v) := by
  unfold indentation
  grind

@[grind ←]
theorem obeys_policySeparator (a : Address) : Obeys R (policySeparator a) := by
  unfold policySeparator
  grind

@[grind ←]
theorem obeys_extend [State.Extender R] (a : Address) (name f : Value) :
    Obeys R (extend a name f) := by
  unfold extend
  grind

section

variable {caller : Caller} (hcaller : ObeysCaller R caller)
include hcaller

@[grind ←]
theorem obeys_all (a : Address) : Obeys R (all caller a) := by
  unfold all
  grind

@[grind ←]
theorem obeys_plainItems (a : Address) : Obeys R (plainItems caller a) := by
  unfold plainItems
  grind

@[grind ←]
theorem obeys_stringify (a : Address) (default indent : Value) :
    Obeys R (stringify caller a default indent) := by
  unfold stringify
  grind

@[grind ←]
theorem obeys_joinedBy (separator : Value) (texts : List String) :
    Obeys R (joinedBy caller separator texts) := by
  unfold joinedBy
  grind

@[grind ←]
theorem obeys_keyTexts (key : Key) (a : Address) : Obeys R (keyTexts caller key a) := by
  unfold keyTexts
  grind

@[grind ←]
theorem obeys_join [∀ b, State.Deriver R b] (a : Address)
    (keyOrFn separator lastSeparator : Value) :
    Obeys R (join caller a keyOrFn separator lastSeparator) := by
  unfold join
  split
  · refine obeys_bind (obeys_policySeparator a) fun separator => ?_
    refine obeys_bind (obeys_keyOf keyOrFn) fun key => ?_
    exact obeys_bind (obeys_keyTexts hcaller key a) fun texts => by grind
  · refine obeys_bind (obeys_pure _) fun separator => ?_
    refine obeys_bind (obeys_keyOf keyOrFn) fun key => ?_
    exact obeys_bind (obeys_keyTexts hcaller key a) fun texts => by grind

@[grind ←]
theorem obeys_dump (a : Address) : Obeys R (dump caller a) := by
  unfold dump
  grind

@[grind ←]
theorem obeys_dumpExit (a : Address) : Obeys R (dumpExit caller a) := by
  unfold dumpExit
  grind

end

end Collection

end Recordset
