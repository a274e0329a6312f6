import Recordset.Collection.Change
import Recordset.Collection.Order
import Recordset.Collection.Summary
import Recordset.Proofs.Scope.Collection
import Recordset.Proofs.Sorting.Sort
set_option autoImplicit false

/-!
# Summarising, ordering and changing a collection within a scope

A summary keeps no more than what it has been given.  A sort by a comparator calls it with items
only, so that the sort comes to the same in two states that agree; a sort by keys has no effects.
-/

namespace Recordset

open Recordset.Action Recordset.Scope

variable {sc : Scope} {v w : Value} {a : Address} {xs ys args : List Value} {es : Entries}

/-! ## Aggregates -/

namespace Aggregate

instance : Scoped Sum := ⟨fun _ _ => True⟩
instance : Inert Sum := ⟨fun _ _ => trivial⟩

section

variable {s t : Store} (h : sc.SameStore s t)
include h

theorem bucketName_eq (hv : sc.Has v) : bucketName s v = bucketName t v := by
  unfold bucketName
  split
  · rw [h.text (has_null sc)]
  · rw [h.text hv]

theorem better_eq (c : Comparison) (hv : sc.Has v) (hw : sc.Has w) :
    better s c v w = better t c v w := by
  unfold better
  rw [h.compare c hw hv, h.shown hv, h.shown hw]

theorem extreme_eq (c : Comparison) (hv : sc.Has v) (hw : sc.Has w) :
    extreme s c v w = extreme t c v w := by
  unfold extreme
  rw [better_eq h c hv hw]

theorem fileKey_eq (hv : sc.Has v) : fileKey s v = fileKey t v := by
  unfold fileKey
  dsimp only
  split
  · rw [h.isKeyKind (has_null sc), h.text (has_null sc)]
  · rw [h.isKeyKind hv, h.text hv]

end

theorem has_extreme {s : Store} (c : Comparison) (hv : sc.Has v) (hw : sc.Has w) :
    sc.Has (extreme s c v w) := by
  unfold extreme better
  grind

theorem has_fileKey {s : Store} (hv : sc.Has v) : sc.Has (fileKey s v) := by
  unfold fileKey
  dsimp only
  split <;> grind

theorem file_eq {s t : Store} (h : sc.SameStore s t) (hes : sc.Has es) (hv : sc.Has v) :
    file s es v w = file t es v w := by
  unfold file
  rw [fileKey_eq h hv]
  refine except_bind_congr fun key hkey => ?_
  have hkey := has_fileKey hv key hkey
  rw [h.isKey hkey, h.insert hkey hes]

theorem has_file {s : Store} (hes : sc.Has es) (hv : sc.Has v) (hw : sc.Has w) :
    sc.Has (file s es v w) := by
  refine has_bind (has_fileKey hv) fun key hkey => ?_
  split
  · exact has_return (has_insert hes hkey hw)
  · exact has_throw sc _

/-- A bucket that is changed, and the others, which are not. -/
theorem has_change {β : Type} [Scoped β] {f : Option β → β} (hf : ∀ b, sc.Has b → sc.Has (f b))
    (name : String) : ∀ {buckets : Buckets β}, sc.Has buckets →
    sc.Has (Buckets.change name f buckets)
  | [], _ => has_cons.mpr ⟨⟨has_inert sc _, hf none (has_none sc)⟩, has_nil sc⟩
  | (n, b) :: rest, hbuckets => by
    obtain ⟨hbucket, hrest⟩ := has_cons.mp hbuckets
    rw [Buckets.change]
    split
    · exact has_cons.mpr ⟨⟨has_inert sc _, hf _ (has_some.mpr (has_snd hbucket))⟩, hrest⟩
    · exact has_cons.mpr ⟨hbucket, has_change hf name hrest⟩

theorem has_add {buckets : Buckets (List Value)} (hbuckets : sc.Has buckets) (name : String)
    (hv : sc.Has v) : sc.Has (Buckets.add name v buckets) :=
  has_change (fun _ hb => Collection.has_kept (hb.getD (has_nil sc)) hv) name hbuckets

@[grind ←]
theorem within_result (sc : Scope) (sum : Sum) : Within sc sum.result := within_number sc _

@[grind ←]
theorem within_average (sc : Scope) (sum : Sum) : Within sc sum.average := by
  unfold Sum.average
  grind

end Aggregate

/-! ## Folds over the items -/

namespace Source

@[grind ←]
theorem within_bucketOf (hv : sc.Has v) : Within sc (bucketOf v) :=
  within_look fun _ _ h => ⟨Aggregate.bucketName_eq h hv, has_inert sc _⟩

section

variable {source : Source} (hsource : ∀ i, Within sc (source.item i)) {key : KeyFinder}
include hsource

theorem within_parted {test : Value → Nat → Action Bool}
    (htest : ∀ v i, sc.Has v → Within sc (test v i)) : Within sc (source.parted test) := by
  refine within_fold hsource (fun parts item i hparts hitem => ?_) ⟨has_nil sc, has_nil sc⟩
  obtain ⟨hpassed, hfailed⟩ := has_pair.mp hparts
  refine within_bind (htest item i hitem) fun b _ => ?_
  split
  · exact within_pure (has_pair.mpr ⟨Collection.has_kept hpassed hitem, hfailed⟩)
  · exact within_pure (has_pair.mpr ⟨hpassed, Collection.has_kept hfailed hitem⟩)

variable (hkey : ∀ v i, sc.Has v → Within sc (key v i))
include hkey

theorem within_grouped : Within sc (source.grouped key) := by
  refine within_fold hsource (fun buckets item i hbuckets hitem => ?_) (has_nil sc)
  refine within_bind (hkey item i hitem) fun k hk => ?_
  exact within_bind (within_bucketOf hk) fun name _ =>
    within_pure (Aggregate.has_add hbuckets name hitem)

theorem within_counted : Within sc (source.counted key) := by
  refine within_fold hsource (fun buckets item i _ hitem => ?_) (has_nil sc)
  refine within_bind (hkey item i hitem) fun k hk => ?_
  exact within_bind (within_bucketOf hk) fun name _ => within_pure (has_inert sc _)

theorem within_filed : Within sc (source.filed key) := by
  refine within_fold hsource (fun entries item i hentries hitem => ?_) (has_nil sc)
  refine within_bind (hkey item i hitem) fun k hk => ?_
  exact within_look fun _ _ h =>
    ⟨Aggregate.file_eq h hentries hk, Aggregate.has_file hentries hk hitem⟩

theorem within_summed : Within sc (source.summed key) := by
  refine within_fold hsource (fun sum item i _ hitem => ?_) (has_inert sc _)
  exact within_bind (hkey item i hitem) fun k _ => within_ofExcept (has_inert sc _)

theorem within_extreme (c : Comparison) : Within sc (source.extreme c key) := by
  refine within_fold hsource (fun current item i hcurrent hitem => ?_) (has_null sc)
  refine within_bind (hkey item i hitem) fun k hk => ?_
  exact within_look fun _ _ h =>
    ⟨Aggregate.extreme_eq h c hcurrent hk, Aggregate.has_extreme c hcurrent hk⟩

end

end Source

namespace Collection

/-! ## Summaries -/

@[grind ←]
theorem within_bucketEntries {buckets : Aggregate.Buckets Value} (hbuckets : sc.Has buckets) :
    Within sc (bucketEntries buckets) :=
  within_make (has_cell_dict.mpr (has_map fun _ hb => ⟨has_str sc _, has_snd (hbuckets.mem hb)⟩))

/-- What is made of the key of a value and of the items. -/
theorem within_keyed_bind {β : Type} [Scoped β] {f : Key → Source → Action β} (ha : sc.Has a)
    (hv : sc.Has v) (hf : ∀ key source, sc.Has key → (∀ i, Within sc (source.item i)) →
      Within sc (f key source)) : Within sc (keyOf v >>= fun key => source a >>= f key) :=
  within_bind (within_keyOf hv) fun key hkey => within_source_bind ha fun source hsource =>
    hf key source hkey hsource

section

variable {caller : Caller} (hcaller : WithinCaller sc caller)
include hcaller

@[grind ←]
theorem within_groupBy (ha : sc.Has a) (hv : sc.Has v) : Within sc (groupBy caller a v) := by
  unfold groupBy
  refine within_keyed_bind ha hv fun key source hkey hsource => ?_
  refine within_bind (Source.within_grouped hsource fun v i hv => Key.within_find hcaller hkey hv i)
    fun groups hgroups => ?_
  refine within_bind (within_mapM hgroups fun group hgroup => ?_) fun buckets hbuckets =>
    within_bucketEntries hbuckets
  exact within_bind (within_derived ha (has_snd hgroup)) fun v hv =>
    within_pure ⟨has_inert sc _, hv⟩

@[grind ←]
theorem within_countBy (ha : sc.Has a) (hv : sc.Has v) : Within sc (countBy caller a v) := by
  unfold countBy
  refine within_keyed_bind ha hv fun key source hkey hsource => ?_
  refine within_bind (Source.within_counted hsource fun v i hv => Key.within_find hcaller hkey hv i)
    fun counts _ => within_bucketEntries (has_map fun _ _ => ⟨has_inert sc _, has_int sc _⟩)

@[grind ←]
theorem within_keyBy (ha : sc.Has a) (hv : sc.Has v) : Within sc (keyBy caller a v) := by
  unfold keyBy
  refine within_keyed_bind ha hv fun key source hkey hsource => ?_
  exact within_bind (Source.within_filed hsource fun v i hv => Key.within_find hcaller hkey hv i)
    fun es hes => within_make (has_cell_dict.mpr hes)

@[grind ←]
theorem within_partition (ha : sc.Has a) (hv : sc.Has v) : Within sc (partition caller a v) := by
  unfold partition
  refine within_bind (within_compile hcaller ha hv) fun e he =>
    within_source_bind ha fun source hsource => ?_
  refine within_bind (Source.within_parted hsource fun v i hv =>
    Expression.within_test hcaller hv i he) fun parts hparts => ?_
  refine within_bind (within_derived ha (has_fst hparts)) fun passed hpassed => ?_
  refine within_bind (within_derived ha (has_snd hparts)) fun failed hfailed => ?_
  exact within_make (has_cell_tuple.mpr (by simp [hpassed, hfailed]))

@[grind ←]
theorem within_reduce (ha : sc.Has a) (hv : sc.Has v) (hw : sc.Has w) :
    Within sc (reduce caller a v w) := by
  unfold reduce
  refine within_source_bind ha fun source hsource => ?_
  refine Source.within_fold hsource (fun result item i hresult hitem => ?_) hw
  exact Callback.within_call hcaller hv 3 (by simp [hresult, hitem])

@[grind ←]
theorem within_sum (ha : sc.Has a) (hv : sc.Has v) : Within sc (sum caller a v) := by
  unfold sum
  refine within_keyed_bind ha hv fun key source hkey hsource => ?_
  exact within_bind (Source.within_summed hsource fun v i hv => Key.within_draw hcaller hkey hv i)
    fun total _ => Aggregate.within_result sc total

@[grind ←]
theorem within_avg (ha : sc.Has a) (hv : sc.Has v) : Within sc (avg caller a v) := by
  unfold avg
  refine within_keyed_bind ha hv fun key source hkey hsource => ?_
  exact within_bind (Source.within_summed hsource fun v i hv => Key.within_draw hcaller hkey hv i)
    fun total _ => Aggregate.within_average sc total

@[grind ←]
theorem within_extreme (c : Comparison) (ha : sc.Has a) (hv : sc.Has v) :
    Within sc (extreme caller c a v) := by
  unfold extreme
  refine within_keyed_bind ha hv fun key source hkey hsource => ?_
  exact Source.within_extreme hsource (fun v i hv => Key.within_draw hcaller hkey hv i) c

@[grind ←]
theorem within_count (ha : sc.Has a) (hv : sc.Has v) : Within sc (count caller a v) := by
  unfold count
  split
  · exact within_bind (within_itemsOf ha) fun xs _ => within_pure (has_int sc _)
  · refine within_bind (within_through hcaller ha _ (has_cons.mpr ⟨hv, has_nil sc⟩)
      (within_filter hcaller ha hv)) fun found hfound => ?_
    refine within_bind (within_attributeOf hfound _) fun items hitems => ?_
    exact within_bind (within_iterate hitems) fun xs _ => within_pure (has_int sc _)

end

/-! ## Ordering the items -/

@[grind ←]
theorem within_policyDirection (ha : sc.Has a) : Within sc (policyDirection a) := by
  unfold policyDirection
  refine within_bind (within_read ha) fun c hc => ?_
  refine within_bind (within_cell (has_collection_iff.mp hc).2.2.1) fun p _ => ?_
  split
  · exact within_pure (has_inert sc _)
  · exact within_pure (has_inert sc _)

instance : Scoped Keyed := ⟨fun sc found => sc.Has found.keyed ∧ sc.Has found.missing⟩

section

variable {caller : Caller} (hcaller : WithinCaller sc caller)
include hcaller

@[grind ←]
theorem within_directionOf (ha : sc.Has a) (hv : sc.Has v) :
    Within sc (directionOf caller a v) := by
  have hrefused : Within sc (do
      Action.refuse (.direction (← Action.look (Store.shown · v))) : Action Direction) :=
    within_bind (within_look fun _ _ h => ⟨h.shown hv, has_inert sc _⟩) fun _ _ => within_refuse _
  have hlower : Within sc (callMethod caller v "lower" []) :=
    within_callMethod hcaller hv _ (has_nil sc)
  have htexts : sc.Has directionTexts := has_cons.mpr ⟨has_str sc _, has_cons.mpr
    ⟨has_str sc _, has_nil sc⟩⟩
  unfold directionOf
  dsimp only
  split
  · exact within_policyDirection ha
  · split
    · exact within_pure (has_inert sc _)
    · exact hrefused
  · exact hrefused
  · refine within_bind hlower fun given hgiven => ?_
    refine within_bind (within_look fun _ _ h => ⟨h.anyEqual hgiven htexts, has_inert sc _⟩)
      fun b _ => ?_
    split
    · exact hrefused
    · refine within_get_eq fun s t h => ⟨by rw [h.truth hv], ?_⟩
      split
      · exact within_policyDirection ha
      · refine within_bind hlower fun given hgiven => ?_
        exact within_bind (within_equal hgiven (has_str sc _)) fun _ _ =>
          within_pure (has_inert sc _)

theorem within_before (hv : sc.Has v) {x y : Value} (hx : sc.Has x) (hy : sc.Has y) :
    Within sc (before caller v x y) :=
  within_bind (hcaller v _ hv (by simp [hx, hy])) fun _ hw => within_compare .less hw (has_int sc 0)

/-- A sort by a comparator of the scope, which is called with items only. -/
theorem within_comparing (hv : sc.Has v) (descending : Bool) (hxs : sc.Has xs) :
    Within sc
      (ExceptT.lift (Sorting.sortTowards (before caller v) descending xs) :
        Action (Sorting.Rearranged Value Error)) := by
  have hcompares : Sorting.Compares sc.judgement (fun _ => True) (.ofKind fun _ => ()) sc.Has
      (before caller v) := by
    intro x y hx hy
    refine sc.judgement.ensures_imp (ensures_run (within_before hcaller hv hx hy)) fun r _ => ?_
    cases r with
    | ok b => exact ⟨fun _ => rfl, fun _ => rfl⟩
    | error e => trivial
  refine within_lift (sc.judgement.ensures_imp
    (Sorting.ensures_sortTowards hcompares descending hxs) fun r hr => ?_)
  exact ⟨hxs.of_subset hr.stable.perm.symm.subset, has_inert sc _⟩

@[grind ←]
theorem within_sortComparing (ha : sc.Has a) (hv : sc.Has v) (direction : Direction) :
    Within sc (sortComparing caller a v direction) := by
  unfold sortComparing
  refine within_bind (within_read ha) fun c hc => ?_
  refine within_bind (within_itemsOf ha) fun items hitems => ?_
  refine within_bind (within_fillList hc.1 (has_nil sc)) fun _ _ => ?_
  refine within_bind (within_write ha (has_cell_collection.mpr hc)) fun _ _ => ?_
  refine within_bind (within_comparing hcaller hv _ hitems) fun sorted hsorted => ?_
  refine within_bind (within_read ha) fun changed hchanged => ?_
  refine within_get_eq fun s t h => ⟨by rw [h.items hc], ?_⟩
  refine within_bind (within_fillList hc.1 (has_fst hsorted)) fun _ _ => ?_
  refine within_bind (within_write ha (has_cell_collection.mpr hchanged)) fun _ _ => ?_
  split
  · exact within_throw _
  · split
    · exact within_fault _
    · exact within_pure (has_inert sc _)

@[grind ←]
theorem within_sortKey {key : Key} (hkey : sc.Has key) (hv : sc.Has v) :
    Within sc (sortKey caller key v) := by
  unfold sortKey
  cases key with
  | path p => exact Path.within_value hv hkey
  | callback f => exact Callback.within_call hcaller hkey 1 (has_cons.mpr ⟨hv, has_nil sc⟩)

@[grind ←]
theorem within_sortByKey {key : Key} (ha : sc.Has a) (hkey : sc.Has key) (direction : Direction) :
    Within sc (sortByKey caller a key direction) := by
  unfold sortByKey
  refine within_bind (within_fold ha (fun found item i hfound hitem => ?_) ?_)
    fun found hfound => ?_
  · refine within_bind (within_sortKey hcaller hkey hitem) fun k hk => ?_
    have hmissing := has_kept hfound.2 hitem
    have hkeyed : sc.Has (found.keyed ++ [(k, item)]) :=
      has_append.mpr ⟨hfound.1, has_cons.mpr ⟨⟨hk, hitem⟩, has_nil sc⟩⟩
    split
    · exact within_pure ⟨hfound.1, hmissing⟩
    · exact within_pure ⟨hkeyed, hfound.2⟩
  · exact ⟨has_nil sc, has_nil sc⟩
  · refine within_bind (within_look fun _ _ h => h.sortKeyed direction hfound.1)
      fun sorted hsorted => ?_
    exact within_setItems ha (has_append.mpr ⟨hsorted.map_snd, hfound.2⟩)

@[grind ←]
theorem within_sort (ha : sc.Has a) (hv : sc.Has v) (hw : sc.Has w) :
    Within sc (sort caller a v w) := by
  unfold sort
  refine within_bind (within_directionOf hcaller ha hw) fun direction _ => ?_
  refine within_get_eq fun s t h => ⟨?_, ?_⟩
  · dsimp only
    rw [h.isCallable hv, Callback.arity_eq h.toSameStore hv]
  · dsimp only
    split
    · exact within_bind (within_sortComparing hcaller ha hv direction) fun _ _ =>
        within_pure (has_ref.mpr ha)
    · refine within_bind (within_keyOf hv) fun key hkey => ?_
      exact within_bind (within_sortByKey hcaller ha hkey direction) fun _ _ =>
        within_pure (has_ref.mpr ha)

@[grind ←]
theorem within_sorted (ha : sc.Has a) (hv : sc.Has v) (direction : Direction) :
    Within sc (sorted caller a v direction) := by
  have hargs : sc.Has [v, .str direction.text] := by simp [hv]
  unfold sorted
  refine within_bind (within_through hcaller ha _ (has_nil sc) (within_clone hcaller ha))
    fun copy hcopy => ?_
  refine within_get_eq fun s t h => ⟨?_, ?_⟩
  · rw [h.view hcopy]
  · split
    · exact within_through hcaller hcopy _ hargs
        (within_sort hcaller hcopy hv (has_str sc _))
    · exact within_callMethod hcaller hcopy _ hargs

end

@[grind ←]
theorem within_shuffle (ha : sc.Has a) : Within sc (shuffle a) := by
  unfold shuffle
  refine within_bind (within_itemsOf ha) fun xs _ => ?_
  refine within_bind (within_drawFrom ha _) fun ys hys => ?_
  exact within_bind (within_setItems ha hys) fun _ _ => within_pure (has_ref.mpr ha)

/-! ## Changing the items -/

/-- What fills the list of a collection gives the collection. -/
theorem within_refill (ha : sc.Has a) (hxs : sc.Has xs) : Within sc (do
    setItems a xs
    return Value.ref a) :=
  within_bind (within_setItems ha hxs) fun _ _ => within_pure (has_ref.mpr ha)

@[grind ←]
theorem within_withoutAll (hys : sc.Has ys) : ∀ {v : Value}, sc.Has v →
    Within sc (withoutAll ys v) := by
  induction ys with
  | nil => exact fun hv => within_pure hv
  | cons path rest ih =>
    intro v hv
    obtain ⟨hpath, hrest⟩ := has_cons.mp hys
    exact within_bind (Path.within_without hv hpath) fun w hw => ih hrest hw

@[grind ←]
theorem within_forget (ha : sc.Has a) (hys : sc.Has ys) : Within sc (forget a ys) := by
  unfold forget
  refine within_get_eq fun s t h => ⟨?_, ?_⟩
  · have hsame : namedPaths s.store ys = namedPaths t.store ys := by
      unfold namedPaths
      rw [List.flatMap_def, List.flatMap_def,
        List.map_congr_left fun k hk => by rw [h.sequence? (hys.mem hk)]]
    rw [hsame]
  · have hpaths : sc.Has (namedPaths t.store ys) := by
      refine has_flatMap fun k hk => ?_
      have hk : sc.Has k := hys.mem hk
      exact (h.closed.sequence? hk).getD (has_cons.mpr ⟨hk, has_nil sc⟩)
    refine within_bind (within_fold ha (fun changed item i hchanged hitem => ?_) (has_nil sc))
      fun zs hzs => within_refill ha hzs
    exact within_bind (within_withoutAll hpaths hitem) fun w hw =>
      within_pure (has_kept hchanged hw)

@[grind ←]
theorem within_push (ha : sc.Has a) (hys : sc.Has ys) : Within sc (push a ys) :=
  within_bind (within_itemsOf ha) fun _ hxs => within_refill ha (has_append.mpr ⟨hxs, hys⟩)

@[grind ←]
theorem within_unshift (ha : sc.Has a) (hys : sc.Has ys) : Within sc (unshift a ys) :=
  within_bind (within_itemsOf ha) fun _ hxs => within_refill ha (has_append.mpr ⟨hys, hxs⟩)

@[grind ←]
theorem within_pop (ha : sc.Has a) : Within sc (pop a) := by
  unfold pop
  refine within_bind (within_itemsOf ha) fun xs hxs => ?_
  exact within_bind (within_setItems ha hxs.dropLast) fun _ _ =>
    within_pure (hxs.getLast?.getD (has_null sc))

@[grind ←]
theorem within_shift (ha : sc.Has a) : Within sc (shift a) := by
  unfold shift
  refine within_bind (within_itemsOf ha) fun xs hxs => ?_
  exact within_bind (within_setItems ha (hxs.drop 1)) fun _ _ =>
    within_pure (hxs.head?.getD (has_null sc))

@[grind ←]
theorem within_atLeast (bound : Int) (hv : sc.Has v) : Within sc (atLeast bound v) := by
  unfold atLeast
  refine within_bind (within_compare .greater (has_int sc bound) hv) fun b _ => ?_
  split
  · exact within_pure (has_int sc bound)
  · exact within_pure hv

@[grind ←]
theorem within_atMost (bound : Int) (hv : sc.Has v) : Within sc (atMost bound v) := by
  unfold atMost
  refine within_bind (within_compare .less (has_int sc bound) hv) fun b _ => ?_
  split
  · exact within_pure (has_int sc bound)
  · exact within_pure hv

@[grind ←]
theorem within_spliceStart (length : Nat) (hv : sc.Has v) : Within sc (spliceStart length v) := by
  unfold spliceStart
  refine within_bind (within_compare .less hv (has_int sc 0)) fun b _ => ?_
  split
  · refine within_bind (within_binary .add (has_int sc _) hv) fun sum hsum => ?_
    exact within_bind (within_atLeast 0 hsum) fun w hw => within_atMost _ hw
  · exact within_bind (within_pure hv) fun w hw => within_atMost _ hw

@[grind ←]
theorem within_spliceEnd (length : Nat) (hv : sc.Has v) (hw : sc.Has w) :
    Within sc (spliceEnd length v w) := by
  unfold spliceEnd
  split
  · exact within_pure (has_int sc _)
  · exact within_bind (within_atLeast 0 hw) fun n hn => within_binary .add hv hn

theorem has_splice (hxs : sc.Has xs) (low high : Option Int) (hys : sc.Has ys) :
    sc.Has (Slice.splice xs low high ys) :=
  has_append.mpr ⟨has_append.mpr ⟨hxs.take _, hys⟩, hxs.drop _⟩

@[grind ←]
theorem within_splice (ha : sc.Has a) (hv : sc.Has v) (hw : sc.Has w) (hys : sc.Has ys) :
    Within sc (splice a v w ys) := by
  unfold splice
  refine within_bind (within_itemsOf ha) fun xs hxs => ?_
  refine within_bind (within_spliceStart _ hv) fun start hstart => ?_
  refine within_bind (within_spliceEnd _ hstart hw) fun stop _ => ?_
  refine within_bind (within_bound sc start) fun low _ => ?_
  refine within_bind (within_bound sc stop) fun high _ => ?_
  refine within_bind (within_setItems ha (has_splice hxs low high hys)) fun _ _ => ?_
  exact within_derived ha (has_slice hxs low high)

section

variable {caller : Caller} (hcaller : WithinCaller sc caller)
include hcaller

@[grind ←]
theorem within_delete (ha : sc.Has a) (hv : sc.Has v) : Within sc (delete caller a v) := by
  unfold delete
  refine within_bind (within_compile hcaller ha hv) fun e he => ?_
  refine within_bind (within_fold ha (fun kept item i hkept hitem => ?_) (has_nil sc))
    fun xs hxs => within_refill ha hxs
  refine within_bind (Expression.within_test hcaller hitem i he) fun b _ => ?_
  have hlonger := has_kept hkept hitem
  split
  · exact within_pure hkept
  · exact within_pure hlonger

@[grind ←]
theorem within_updated (hv : sc.Has v) (hw : sc.Has w) (index : Nat) :
    Within sc (updated caller v w index) := by
  unfold updated
  refine within_get_eq fun s t h => ⟨by rw [h.entries? hv], ?_⟩
  split
  · rename_i es hes
    exact within_merge hw (h.closed.entries? hv es hes)
  · exact Callback.within_call hcaller hv 2 (by simp [hw])

@[grind ←]
theorem within_concerns {test : Option Expression} (htest : sc.Has test) (hv : sc.Has v)
    (index : Nat) : Within sc (concerns caller test v index) := by
  unfold concerns
  split
  · exact within_pure (has_inert sc _)
  · exact Expression.within_test hcaller hv index (has_some.mp htest)

/-- The items that an update is for are updated one after another. -/
theorem within_updates (ha : sc.Has a) (hv : sc.Has v) {test : Option Expression}
    (htest : sc.Has test) : Within sc (do
      fold a () fun _ item i => do
        if ← concerns caller test item i then
          Action.assign (.ref a) (.int i) (← updated caller v item i)
      return Value.ref a) := by
  refine within_bind (within_fold ha (fun _ item i _ hitem => ?_) (has_inert sc ())) fun _ _ =>
    within_pure (has_ref.mpr ha)
  refine within_bind (within_concerns hcaller htest hitem i) fun b _ => ?_
  split
  · exact within_bind (within_updated hcaller hv hitem i) fun w hw =>
      within_assign (has_ref.mpr ha) (has_int sc _) hw
  · exact within_pure (has_inert sc _)

/-- An update by a query and a patch that have been told apart. -/
theorem within_updateBy (ha : sc.Has a) (hv : sc.Has v) (hw : sc.Has w) : Within sc (do
    let s := (← get).store
    if !s.isCallable w && !s.isMapping w then Action.refuse (.notAPatch (s.kind w))
    else
      let test ← match v with
        | .null => pure none
        | _ => do pure (some (← compile caller a v))
      fold a () fun _ item i => do
        if ← concerns caller test item i then
          Action.assign (.ref a) (.int i) (← updated caller w item i)
      return Value.ref a) := by
  refine within_get_eq fun s t h => ⟨?_, ?_⟩
  · dsimp only
    rw [h.isCallable hw, h.isMapping hw, h.kind hw]
  · dsimp only
    split
    · exact within_refuse _
    · split
      · exact within_bind (within_pure (has_none sc)) fun _ htest =>
          within_updates hcaller ha hw htest
      · refine within_bind (within_compile hcaller ha hv) fun e he => ?_
        exact within_bind (within_pure (has_some.mpr he)) fun _ htest =>
          within_updates hcaller ha hw htest

@[grind ←]
theorem within_update (ha : sc.Has a) (hargs : sc.Has args) :
    Within sc (update caller a args) := by
  unfold update
  split
  all_goals
    refine within_bind ?_ fun given hgiven =>
      within_updateBy hcaller ha (has_fst hgiven) (has_snd hgiven)
  · exact within_pure (has_pair.mpr ⟨has_null sc, (has_cons.mp hargs).1⟩)
  · obtain ⟨hspec, hrest⟩ := has_cons.mp hargs
    exact within_pure (has_pair.mpr ⟨hspec, (has_cons.mp hrest).1⟩)
  · exact within_refuse _

end

end Collection

end Recordset
