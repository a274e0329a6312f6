import Recordset.Output.Layout
import Recordset.Policy.Make
import Recordset.Proofs.Scope.Comparing
import Recordset.Proofs.Sorting.Keys
import Recordset.Proofs.Sorting.Transfer
import Recordset.Value.Observe
import Recordset.Value.Template
set_option autoImplicit false

/-!
# Showing the values of a scope

A value of a scope is written, laid out and observed in the same way in all stores that are the same
on the scope.
-/

namespace Recordset

namespace Scope

variable {sc : Scope} {s t : Store} {v w : Value} {xs ys : List Value} {es : Entries}

/-! ## The written form -/

/-- Entries are written in the same way when their keys and values are. -/
theorem entriesShown_congr {f g : Value → Except Error String} (hes : sc.Has es)
    (h : ∀ v, sc.Has v → f v = g v) : Store.entriesShown f es = Store.entriesShown g es := by
  unfold Store.entriesShown
  refine mapM_congr fun (k, v) he => ?_
  have hpair : sc.Has (k, v) := hes.mem he
  dsimp only
  rw [h k (has_fst hpair), h v (has_snd hpair)]

/-- What an extension comes from, and all that it has been given. -/
theorem has_appliedTo {receivers : List Value} (hv : sc.Has v) (hreceivers : sc.Has receivers) :
    sc.Has (v.appliedTo receivers) := by
  induction v generalizing receivers with
  | extension serial f receiver hf _ =>
    obtain ⟨-, hhas, hreceiver⟩ := has_extension.mp hv
    exact hf hhas (has_cons.mpr ⟨hreceiver, hreceivers⟩)
  | _ => exact ⟨hv, hreceivers⟩

theorem SameStore.shownAt (h : sc.SameStore s t) :
    ∀ (fuel : Nat) (outer : List Address) {v : Value},
    sc.Has v → s.shownAt fuel outer v = t.shownAt fuel outer v := by
  intro fuel
  induction fuel with
  | zero => exact fun _ _ _ => rfl
  | succ fuel ih =>
    intro outer v hv
    have hall : ∀ (outer : List Address) {xs : List Value}, sc.Has xs →
        xs.mapM (s.shownAt fuel outer) = xs.mapM (t.shownAt fuel outer) :=
      fun outer xs hxs => mapM_congr fun x hx => ih outer (hxs.mem hx)
    have hentries : ∀ (outer : List Address) {es : Entries}, sc.Has es →
        Store.entriesShown (s.shownAt fuel outer) es =
          Store.entriesShown (t.shownAt fuel outer) es :=
      fun outer es hes => entriesShown_congr hes fun v hv => ih outer hv
    unfold Store.shownAt
    cases v with
    | extension serial f receiver =>
      obtain ⟨-, hf, hreceiver⟩ := has_extension.mp hv
      have happlied := has_appliedTo hf (has_cons.mpr ⟨hreceiver, has_nil sc⟩)
      dsimp only
      rw [hall outer (has_cons.mpr happlied)]
    | method serial a name =>
      have ha : sc.Has (Value.ref a) := (has_method.mp hv).2
      dsimp only
      rw [h.kind ha, ih outer ha]
    | ref a =>
      dsimp only
      rw [h.cells hv]
      cases hc : t.cell? a with
      | none => rfl
      | some c =>
        have hhas : sc.Has c := h.closed.cells hv hc
        cases c with
        | list xs =>
          dsimp only
          rw [hall _ (has_cell_list.mp hhas)]
        | tuple xs =>
          match xs with
          | [] => rfl
          | [x] =>
            dsimp only
            rw [ih _ (has_cons.mp (has_cell_tuple.mp hhas)).1]
          | x :: y :: xs =>
            dsimp only
            rw [hall _ (has_cell_tuple.mp hhas)]
        | set xs =>
          match xs with
          | [] => rfl
          | x :: xs =>
            dsimp only
            rw [hall _ (has_cell_set.mp hhas)]
        | dict es =>
          dsimp only
          rw [hentries _ (has_cell_dict.mp hhas)]
        | frozen es =>
          dsimp only
          rw [hentries _ (has_cell_frozen.mp hhas)]
        | collection c =>
          have hc : sc.Has c := has_cell_collection.mp hhas
          dsimp only
          rw [h.items hc, hall _ (h.closed.items hc)]
        | policy p =>
          obtain ⟨hperPage, hseparator, hseed⟩ := has_cell_policy.mp hhas
          dsimp only
          rw [ih _ hperPage, ih _ hseparator, ih _ hseed]
        | _ => rfl
    | _ => rfl

section

variable (h : sc.SameStore s t) (hv : sc.Has v)
include h hv

theorem SameStore.shown : s.shown v = t.shown v := by
  unfold Store.shown
  rw [h.depth]
  exact h.shownAt _ [] hv

theorem SameStore.absentKey : s.absentKey v = t.absentKey v := by
  unfold Store.absentKey
  rw [h.shown hv]

theorem SameStore.entry {es : Entries} (hes : sc.Has es) : s.entry es v = t.entry es v := by
  unfold Store.entry
  rw [h.isKey hv, h.find? hv hes, h.absentKey hv]

theorem SameStore.item {w : Value} (hw : sc.Has w) : s.item v w = t.item v w := by
  unfold Store.item
  rw [h.view hv]
  split
  · rfl
  · rfl
  · split
    case h_3 c hc => rw [h.items_of_view hv hc]
    case h_4 es hc => exact h.entry hw (has_cell_dict.mp (h.closed.has_of_view hv hc))
    case h_5 es hc => exact h.entry hw (has_cell_frozen.mp (h.closed.has_of_view hv hc))
    all_goals rfl

theorem SameStore.text : s.text v = t.text v := by
  unfold Store.text
  split
  · rfl
  · rw [h.view hv]
    split
    · rename_i es hc
      rw [entriesShown_congr (has_cell_frozen.mp (h.closed.has_of_view hv hc))
        fun w hw => h.shown hw]
    · exact h.shown hv

theorem SameStore.directionNamed? : Policy.directionNamed? s v = Policy.directionNamed? t v := by
  unfold Policy.directionNamed?
  rw [h.view hv]

end

/-! ## Templates -/

instance : Scoped Template.Supply := ⟨fun sc supply => sc.Has supply.args ∧ sc.Has supply.mapping⟩
instance : Scoped Template.Conversion := ⟨fun _ _ => True⟩

instance : Inert Template.Conversion := ⟨fun _ _ => trivial⟩

@[grind =]
theorem has_supply_iff {supply : Template.Supply} :
    sc.Has supply ↔ sc.Has supply.args ∧ sc.Has supply.mapping := .rfl

section

variable {supply : Template.Supply} (hsupply : sc.Has supply)
include hsupply

@[grind ←]
theorem has_next : sc.Has supply.next := by
  unfold Template.Supply.next
  grind

@[grind ←]
theorem has_givenSize (limit : Nat) : sc.Has (Template.givenSize limit supply) := by
  unfold Template.givenSize
  grind

@[grind ←]
theorem has_readWidth (c : Template.Conversion) (cs : List Char) :
    sc.Has (Template.readWidth c supply cs) := by
  unfold Template.readWidth
  grind

@[grind ←]
theorem has_readPrecision (c : Template.Conversion) (cs : List Char) :
    sc.Has (Template.readPrecision c supply cs) := by
  unfold Template.readPrecision
  grind

end

section

variable (h : sc.SameStore s t) (medium : Template.Medium) {supply : Template.Supply}
  (hsupply : sc.Has supply)
include h

theorem SameStore.readEntry (hsupply : sc.Has supply) (cs : List Char) :
    Template.readEntry s medium supply cs = Template.readEntry t medium supply cs := by
  unfold Template.readEntry
  split
  · split
    · rfl
    · rfl
    · rename_i m key more hm _
      have hmapping : sc.Has m := hsupply.2 m hm
      dsimp only
      split
      · rw [h.item hmapping (has_str sc _)]
      · rw [h.item hmapping (has_bytes sc _)]
  · rfl

theorem SameStore.has_readEntry (hsupply : sc.Has supply) (cs : List Char) :
    sc.Has (Template.readEntry t medium supply cs) := by
  unfold Template.readEntry
  split
  · split
    · exact has_error sc _
    · exact has_error sc _
    · rename_i m key more hm _
      have hmapping : sc.Has m := hsupply.2 m hm
      refine has_bind (h.closed.item hmapping _) fun v hv => ?_
      refine has_return ⟨⟨?_, hsupply.2⟩, has_inert sc _⟩
      exact has_cons.mpr ⟨hv, has_nil sc⟩
  · exact has_ok.mpr ⟨hsupply, has_inert sc _⟩

theorem SameStore.writeText (c : Template.Conversion) (hv : sc.Has v) :
    Template.writeText s c v = Template.writeText t c v := by
  unfold Template.writeText
  rw [h.text hv, h.shown hv]

theorem SameStore.writeBytes (c : Template.Conversion) (hv : sc.Has v) :
    Template.writeBytes s c v = Template.writeBytes t c v := by
  unfold Template.writeBytes
  rw [h.shown hv]

theorem SameStore.write (c : Template.Conversion) (hv : sc.Has v) :
    Template.write s medium c v = Template.write t medium c v := by
  unfold Template.write
  rw [h.writeText c hv, h.writeBytes c hv]

theorem SameStore.convert (hsupply : sc.Has supply) (cs : List Char) :
    Template.convert s medium supply cs = Template.convert t medium supply cs := by
  unfold Template.convert
  rw [h.readEntry medium hsupply]
  refine except_bind_congr fun (entered, cs) hentered => ?_
  have hhas := (h.has_readEntry medium hsupply _ _ hentered).1
  refine except_bind_congr fun (c, widened, cs) hwidened => ?_
  have hhas := (has_readWidth hhas _ _ _ hwidened).2.1
  refine except_bind_congr fun (c, given, cs) hgiven => ?_
  have hhas := (has_readPrecision hhas _ _ _ hgiven).2.1
  dsimp only
  split
  · rfl
  · refine except_bind_congr fun (v, rest) hnext => ?_
    dsimp only
    rw [h.write medium _ (has_next hhas _ hnext).1]

theorem SameStore.has_convert (hsupply : sc.Has supply) (cs : List Char) :
    sc.Has (Template.convert t medium supply cs) := by
  unfold Template.convert
  refine has_bind (h.has_readEntry medium hsupply cs) fun entered hentered => ?_
  refine has_bind (has_readWidth hentered.1 _ _) fun widened hwidened => ?_
  refine has_bind (has_readPrecision hwidened.2.1 _ _) fun given hgiven => ?_
  dsimp only
  split
  · exact has_throw sc _
  · refine has_bind (has_next hgiven.2.1) fun next hnext => ?_
    refine has_bind (has_inert sc _) fun written _ => has_return ?_
    exact ⟨has_inert sc _, hnext.2, has_inert sc _⟩

theorem SameStore.fill (fuel : Nat) : ∀ {supply : Template.Supply} (cs : List Char),
    sc.Has supply →
      Template.fill s medium fuel supply cs = Template.fill t medium fuel supply cs := by
  induction fuel with
  | zero => exact fun _ _ => rfl
  | succ fuel ih =>
    intro supply cs hsupply
    unfold Template.fill
    split
    · rfl
    · rw [ih _ hsupply]
    · rw [h.convert medium hsupply]
      refine except_bind_congr fun (written, left, rest) hwritten => ?_
      dsimp only
      rw [ih _ (h.has_convert medium hsupply _ _ hwritten).2.1]
    · rw [ih _ hsupply]

theorem SameStore.isTemplateMapping (hv : sc.Has v) :
    Template.isMapping s medium v = Template.isMapping t medium v := by
  unfold Template.isMapping
  rw [h.view hv]

theorem SameStore.templateSupply (hv : sc.Has v) :
    Template.supply s medium v = Template.supply t medium v := by
  unfold Template.supply
  rw [h.view hv, h.isTemplateMapping medium hv]

theorem SameStore.has_templateSupply (hv : sc.Has v) : sc.Has (Template.supply t medium v) := by
  unfold Template.supply
  split
  · rename_i xs hc
    exact ⟨h.closed.has_of_view hv hc, has_none sc⟩
  · refine ⟨has_cons.mpr ⟨hv, has_nil sc⟩, ?_⟩
    split
    · exact has_some.mpr hv
    · exact has_none sc

theorem SameStore.filled (template : List Char) (hv : sc.Has v) :
    Template.filled s medium template v = Template.filled t medium template v := by
  unfold Template.filled
  rw [h.templateSupply medium hv, h.fill medium _ _ (h.has_templateSupply medium hv)]

end

/-! ## Sorts without effects -/

section

variable {α : Type} [Scoped α]

/-- Comparisons that only look at the store. -/
def reading (less : Store → α → α → Except Error Bool) : Sorting.Less α Error (ReaderM Store) :=
  fun x y s => less s x y

/-- What is ensured of computations that look the same in stores that are the same on a scope. -/
def readings (sc : Scope) : Sorting.Judgement (ReaderM Store) where
  Ensures x p := ∀ s t, sc.SameStore s t → x.run s = x.run t ∧ p (x.run t)
  ensures_pure h _ _ _ := ⟨rfl, h⟩
  ensures_bind hx hf s t hst := by
    obtain ⟨heq, hp⟩ := hx s t hst
    rw [ReaderT.run_bind, ReaderT.run_bind, heq]
    exact hf _ hp s t hst
  ensures_imp hx himp s t hst := ⟨(hx s t hst).1, himp _ (hx s t hst).2⟩

/-- Looking at one store. -/
def lookingAt (s : Store) : Sorting.Transfer (ReaderM Store) Id where
  carry x := x.run s
  carry_pure _ := rfl
  carry_bind _ _ := rfl

/-- A sort by comparisons that come to the same sorts in the same way. -/
theorem SameStore.sortTowards (h : sc.SameStore s t) (less : Store → α → α → Except Error Bool)
    (hless : ∀ {s t : Store}, sc.SameStore s t → ∀ {x y : α}, sc.Has x → sc.Has y →
      less s x y = less t x y) (descending : Bool) {xs : List α} (hxs : sc.Has xs) :
    Sorting.sortTowards (fun x y => ExceptT.mk (m := Id) (pure (less s x y))) descending xs =
        Sorting.sortTowards (fun x y => ExceptT.mk (m := Id) (pure (less t x y))) descending xs ∧
      sc.Has (Sorting.sortTowards (fun x y => ExceptT.mk (m := Id) (pure (less t x y)))
        descending xs).run.1 := by
  have hcompares : Sorting.Compares sc.readings (fun _ => True) (.ofKind fun _ => ()) sc.Has
      (reading less) := by
    intro x y hx hy s t hst
    refine ⟨hless hst hx hy, ?_⟩
    generalize ReaderT.run _ t = answer
    cases answer with
    | ok b => exact ⟨fun _ => rfl, fun _ => rfl⟩
    | error e => trivial
  have hsorted := Sorting.ensures_sortTowards hcompares descending hxs s t h
  have hcarry := fun s => (lookingAt s).carry_sortTowards (reading less) descending xs
  refine ⟨(hcarry s).symm.trans (hsorted.1.trans (hcarry t)), ?_⟩
  have hperm := hsorted.2.stable.perm
  rw [show (Sorting.sortTowards (reading less) descending xs).run t = _ from hcarry t] at hperm
  exact hxs.of_subset hperm.symm.subset

theorem SameStore.sort (h : sc.SameStore s t) (less : Store → α → α → Except Error Bool)
    (hless : ∀ {s t : Store}, sc.SameStore s t → ∀ {x y : α}, sc.Has x → sc.Has y →
      less s x y = less t x y) {xs : List α} (hxs : sc.Has xs) :
    Sorting.sort (fun x y => ExceptT.mk (m := Id) (pure (less s x y))) xs =
        Sorting.sort (fun x y => ExceptT.mk (m := Id) (pure (less t x y))) xs ∧
      sc.Has (Sorting.sort (fun x y => ExceptT.mk (m := Id) (pure (less t x y))) xs).run.1 :=
  h.sortTowards less hless false hxs

theorem SameStore.sortKeyed (h : sc.SameStore s t) (direction : Direction)
    {ps : List (Value × Value)} (hps : sc.Has ps) :
    Collection.sortKeyed s direction ps = Collection.sortKeyed t direction ps ∧
      sc.Has (Collection.sortKeyed t direction ps) := by
  obtain ⟨heq, hhas⟩ := h.sortTowards (fun s p q => s.less p.1 q.1)
    (fun h _ _ hp hq => h.less (has_fst hp) (has_fst hq)) (direction == .desc) hps
  unfold Collection.sortKeyed
  dsimp only
  rw [heq]
  refine ⟨rfl, ?_⟩
  generalize Sorting.sortTowards (m := Id) _ _ ps = sorted at hhas ⊢
  split
  · rename_i qs hqs
    rw [hqs] at hhas
    exact has_ok.mpr hhas
  · exact has_error sc _
  · exact has_error sc _

end

/-! ## Values laid out in lines -/

section

variable (h : sc.SameStore s t)
include h

theorem SameStore.kindName (hv : sc.Has v) : Layout.kindName s v = Layout.kindName t v := by
  unfold Layout.kindName
  rw [h.view hv, h.comparedKind hv]

theorem SameStore.keyBefore (hv : sc.Has v) (hw : sc.Has w) :
    Layout.keyBefore s v w = Layout.keyBefore t v w := by
  unfold Layout.keyBefore Layout.kindBefore
  rw [h.less hv hw, h.kindName hv, h.kindName hw]

theorem SameStore.sortByKeys {α : Type} [Scoped α] (key : α → Value)
    (hkey : ∀ {x}, sc.Has x → sc.Has (key x)) {xs : List α} (hxs : sc.Has xs) :
    Layout.sortByKeys s key xs = Layout.sortByKeys t key xs ∧
      sc.Has (Layout.sortByKeys t key xs) := by
  obtain ⟨heq, hhas⟩ := h.sort (fun s x y => Layout.keyBefore s (key x) (key y))
    (fun h _ _ hx hy => h.keyBefore (hkey hx) (hkey hy)) hxs
  unfold Layout.sortByKeys
  dsimp only
  rw [heq]
  refine ⟨rfl, ?_⟩
  generalize Sorting.sort (m := Id) _ xs = sorted at hhas ⊢
  split
  · rename_i ys hys
    rw [hys] at hhas
    exact has_ok.mpr hhas
  · exact has_error sc _

theorem SameStore.ofValueAt : ∀ (fuel : Nat) {v : Value}, sc.Has v →
    Layout.ofValueAt s fuel v = Layout.ofValueAt t fuel v := by
  intro fuel
  induction fuel with
  | zero => exact fun _ => rfl
  | succ fuel ih =>
    intro v hv
    have hall : ∀ {xs : List Value}, sc.Has xs →
        xs.mapM (Layout.ofValueAt s fuel) = xs.mapM (Layout.ofValueAt t fuel) :=
      fun hxs => mapM_congr fun x hx => ih (hxs.mem hx)
    have hmapping : ∀ {es : Entries}, sc.Has es →
        (do (← Layout.sortByKeys s Prod.fst es).mapM fun (k, w) => do
          return ((← Layout.ofValueAt s fuel k).line, ← Layout.ofValueAt s fuel w)) =
        (do (← Layout.sortByKeys t Prod.fst es).mapM fun (k, w) => do
          return ((← Layout.ofValueAt t fuel k).line, ← Layout.ofValueAt t fuel w)) := by
      intro es hes
      obtain ⟨heq, hhas⟩ := h.sortByKeys Prod.fst has_fst hes
      rw [heq]
      refine except_bind_congr fun sorted hsorted => mapM_congr fun (k, w) hpair => ?_
      have hpair : sc.Has (k, w) := (hhas sorted hsorted).mem hpair
      dsimp only
      rw [ih (has_fst hpair), ih (has_snd hpair)]
    unfold Layout.ofValueAt
    dsimp only
    rw [h.view hv, h.shown hv]
    split
    · rfl
    · rfl
    · split
      case h_1 xs hc => rw [hall (has_cell_list.mp (h.closed.has_of_view hv hc))]
      case h_2 xs hc => rw [hall (has_cell_tuple.mp (h.closed.has_of_view hv hc))]
      case h_3 es hc => rw [hmapping (has_cell_dict.mp (h.closed.has_of_view hv hc))]
      case h_4 es hc => rw [hmapping (has_cell_frozen.mp (h.closed.has_of_view hv hc))]
      case h_5 p hc =>
        obtain ⟨hperPage, hseparator, hseed⟩ := has_cell_policy.mp (h.closed.has_of_view hv hc)
        rw [hall (by simp [hperPage, hseparator, hseed])]
      case h_6 => rfl
      case h_7 xs _ hc =>
        have hxs : sc.Has xs := h.closed.has_of_view hv hc
        obtain ⟨heq, hhas⟩ := h.sortByKeys id (fun hx => hx) hxs
        rw [heq]
        refine except_bind_congr fun sorted hsorted => ?_
        rw [hall (hhas sorted hsorted)]
      case h_8 => rfl

theorem SameStore.printed (hv : sc.Has v) : Layout.printed s v = Layout.printed t v := by
  unfold Layout.printed
  rw [h.depth, h.ofValueAt _ hv]

/-! ## What an observer sees -/

theorem SameStore.observeAt : ∀ (fuel : Nat) {v : Value}, sc.Has v →
    s.observeAt fuel v = t.observeAt fuel v := by
  intro fuel
  induction fuel with
  | zero => exact fun _ => rfl
  | succ fuel ih =>
    intro v hv
    have hall : ∀ {xs : List Value}, sc.Has xs →
        xs.map (s.observeAt fuel) = xs.map (t.observeAt fuel) :=
      fun hxs => List.map_congr_left fun x hx => ih (hxs.mem hx)
    have hentry : ∀ {e : Value × Value}, sc.Has e →
        (s.observeAt fuel e.1, s.observeAt fuel e.2) =
          (t.observeAt fuel e.1, t.observeAt fuel e.2) :=
      fun he => by rw [ih (has_fst he), ih (has_snd he)]
    unfold Store.observeAt
    cases v with
    | ref a =>
      dsimp only
      rw [h.cells hv]
      cases hc : t.cell? a with
      | none => rfl
      | some c =>
        have hhas : sc.Has c := h.closed.cells hv hc
        cases c with
        | list xs | tuple xs | set xs =>
          have hxs : sc.Has xs := hhas
          dsimp only
          rw [hall hxs]
        | dict es =>
          have hes := has_cell_dict.mp hhas
          exact congrArg Datum.dict (List.map_congr_left fun e he => hentry (hes.mem he))
        | frozen es =>
          have hes := has_cell_frozen.mp hhas
          exact congrArg Datum.frozen (List.map_congr_left fun e he => hentry (hes.mem he))
        | object fs =>
          have hfs := has_cell_object.mp hhas
          refine congrArg Datum.object (List.map_congr_left fun f hf => ?_)
          exact congrArg (Prod.mk f.1) (ih (has_snd (hfs.mem hf)))
        | custom kind fs =>
          have hfs := has_cell_custom.mp hhas
          dsimp only
          rw [List.map_congr_left fun f hf => congrArg (Prod.mk f.1) (ih (has_snd (hfs.mem hf)))]
        | collection c =>
          have hc : sc.Has c := has_cell_collection.mp hhas
          dsimp only
          rw [h.items hc, hall (h.closed.items hc)]
        | policy p =>
          obtain ⟨hperPage, hseparator, hseed⟩ := has_cell_policy.mp hhas
          dsimp only
          rw [ih hperPage, ih hseparator, ih hseed]
        | builder b =>
          have hb : sc.Has b := has_cell_builder.mp hhas
          dsimp only
          rw [List.map_congr_left fun o ho => ih ((has_builder_iff.mp hb).2.2.2.1.mem ho).2]
        | _ => rfl
    | _ => rfl

theorem SameStore.observe (hv : sc.Has v) : s.observe v = t.observe v := by
  unfold Store.observe
  rw [h.depth, h.observeAt _ hv]

end

end Scope

end Recordset
