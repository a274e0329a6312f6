import Recordset.Proofs.Obeys.Basic
set_option autoImplicit false

/-!
# Sorting by comparisons that obey

A sort does nothing to the state but what its comparisons do, so that it obeys when they do.
-/

namespace Recordset.Sorting

open Recordset.Action

variable {R : State → State → Prop} [State.Base R] {α : Type} {less : Less α Error (StateM State)}

/-! ## Searching -/

section

variable {leading : Leading Error (StateM State)}
  (hleading : ∀ i, Obeys R (leading i))

include hleading

theorem obeys_bisect (fuel : Nat) : ∀ low high, Obeys R (bisect leading fuel low high) := by
  induction fuel with
  | zero => exact fun low high => obeys_pure low
  | succ fuel ih =>
    intro low high
    unfold bisect
    grind

theorem obeys_stride (limit fuel : Nat) :
    ∀ last next, Obeys R (stride leading limit fuel last next) := by
  induction fuel with
  | zero => exact fun last next => obeys_pure _
  | succ fuel ih =>
    intro last next
    unfold stride
    grind

theorem obeys_gallop (size guess : Nat) : Obeys R (gallop leading size guess) := by
  unfold gallop
  refine obeys_bind (hleading guess) fun found => ?_
  split
  · refine obeys_bind (obeys_stride (fun o => hleading _) _ _ _ _) fun places => ?_
    exact obeys_bisect hleading _ _ _
  · refine obeys_bind (obeys_stride (fun o => ?_) _ _ _ _) fun places => ?_
    · exact obeys_bind (hleading _) fun b => obeys_pure _
    · exact obeys_bisect hleading _ _ _

end

variable (hless : ∀ x y, Obeys R (less x y))
include hless

theorem obeys_notBefore (x : α) (xs : Array α) (i : Nat) : Obeys R (notBefore less x xs i) := by
  unfold notBefore
  grind

theorem obeys_isBefore (xs : Array α) (x : α) (i : Nat) : Obeys R (isBefore less xs x i) := by
  unfold isBefore
  grind

/-! ## Runs -/

theorem obeys_placeOf (x : α) (sorted : List α) : Obeys R (placeOf less x sorted) :=
  obeys_bisect (obeys_notBefore hless x _) _ _ _

theorem obeysRun_insertAll (xs : List α) :
    ∀ sorted : List α, ObeysRun R (insertAll less sorted xs) := by
  induction xs with
  | nil => exact fun sorted => obeysRun_pure _
  | cons x rest ih =>
    intro sorted
    unfold insertAll
    refine obeysRun_bind (obeysRun_run (obeys_placeOf hless x sorted)) fun r => ?_
    cases r with
    | ok n => exact ih _
    | error e => exact obeysRun_pure _

theorem obeys_takeRun (descending : Bool) (xs : List α) :
    ∀ last, Obeys R (takeRun less descending last xs) := by
  induction xs with
  | nil => exact fun last => obeys_pure _
  | cons x rest ih =>
    intro last
    unfold takeRun
    grind

theorem obeys_firstRun (xs : List α) : Obeys R (firstRun less xs) := by
  unfold firstRun
  grind [obeys_takeRun]

theorem obeysRun_nextRun (least : Nat) (xs : List α) : ObeysRun R (nextRun less least xs) := by
  unfold nextRun
  refine obeysRun_bind (obeysRun_run (obeys_firstRun hless xs)) fun r => ?_
  cases r with
  | ok r => exact obeysRun_bind (obeysRun_insertAll hless _ _) fun _ => obeysRun_pure _
  | error e => exact obeysRun_pure _

/-! ## Merges -/

theorem obeysRun_mergeForward (pace : Pace) (threshold : Nat) (done left right : List α) :
    ObeysRun R (mergeForward less pace threshold done left right) := by
  induction hsize : left.length + right.length using Nat.strongRecOn
    generalizing pace threshold done left right with
  | _ size ih =>
    unfold mergeForward
    split
    · rename_i x x' xs y ys
      cases pace with
      | counting wonLeft wonRight =>
        refine obeysRun_bind (obeysRun_run (hless y x)) fun r => ?_
        cases r with
        | error e => exact obeysRun_pure _
        | ok b =>
          cases b with
          | true => exact ih _ (by subst hsize; simp) _ _ _ _ _ rfl
          | false => exact ih _ (by subst hsize; simp) _ _ _ _ _ rfl
      | galloping =>
        refine obeysRun_bind (obeysRun_run (obeys_gallop (obeys_notBefore hless y _) _ _))
          fun r => ?_
        cases r with
        | error e => exact obeysRun_pure _
        | ok first =>
          dsimp only
          split
          · rename_i z z' zs hdrop
            split
            · exact obeysRun_pure _
            · refine obeysRun_bind
                (obeysRun_run (obeys_gallop (obeys_isBefore hless _ z) _ _)) fun r => ?_
              cases r with
              | error e => exact obeysRun_pure _
              | ok second =>
                dsimp only
                split
                · exact obeysRun_pure _
                · split
                  · exact obeysRun_pure _
                  · refine ih _ ?_ _ _ _ _ _ rfl
                    subst hsize
                    simp
                    omega
          · exact obeysRun_pure _
    · exact obeysRun_pure _

theorem obeysRun_mergeBackward (pace : Pace) (threshold : Nat) (left right done : List α) :
    ObeysRun R (mergeBackward less pace threshold left right done) := by
  induction hsize : left.length + right.length using Nat.strongRecOn
    generalizing pace threshold left right done with
  | _ size ih =>
    unfold mergeBackward
    split
    · rename_i x xs y y' ys
      cases pace with
      | counting wonLeft wonRight =>
        refine obeysRun_bind (obeysRun_run (hless y x)) fun r => ?_
        cases r with
        | error e => exact obeysRun_pure _
        | ok b =>
          cases b with
          | true => exact ih _ (by subst hsize; simp) _ _ _ _ _ rfl
          | false => exact ih _ (by subst hsize; simp) _ _ _ _ _ rfl
      | galloping =>
        refine obeysRun_bind (obeysRun_run (obeys_gallop (obeys_notBefore hless y _) _ _))
          fun r => ?_
        cases r with
        | error e => exact obeysRun_pure _
        | ok place =>
          dsimp only
          split
          · exact obeysRun_pure _
          · rename_i z zs hdrop
            split
            · exact obeysRun_pure _
            · refine obeysRun_bind
                (obeysRun_run (obeys_gallop (obeys_isBefore hless _ z) _ _)) fun r => ?_
              cases r with
              | error e => exact obeysRun_pure _
              | ok place =>
                dsimp only
                split
                · exact obeysRun_pure _
                · split
                  · exact obeysRun_pure _
                  · refine ih _ ?_ _ _ _ _ _ rfl
                    subst hsize
                    simp
                    omega
    · exact obeysRun_pure _

theorem obeysRun_merge (threshold : Nat) (left right : List α) :
    ObeysRun R (merge less threshold left right) := by
  unfold merge
  cases right.head? with
  | none => exact obeysRun_pure _
  | some y =>
    refine obeysRun_bind (obeysRun_run (obeys_gallop (obeys_notBefore hless y _) _ _))
      fun r => ?_
    cases r with
    | error e => exact obeysRun_pure _
    | ok first =>
      dsimp only
      cases (left.drop first).getLast? with
      | none => exact obeysRun_pure _
      | some x =>
        refine obeysRun_bind (obeysRun_run (obeys_gallop (obeys_isBefore hless _ x) _ _))
          fun r => ?_
        cases r with
        | error e => exact obeysRun_pure _
        | ok second =>
          dsimp only
          split
          · exact obeysRun_bind (obeysRun_pure _) fun _ => obeysRun_pure _
          · split
            · exact obeysRun_bind (obeysRun_mergeForward hless _ _ _ _ _) fun _ => obeysRun_pure _
            · exact obeysRun_bind (obeysRun_mergeBackward hless _ _ _ _ _) fun _ => obeysRun_pure _

/-! ## Sorts -/

theorem obeysRun_mergeNeighbours (threshold : Nat) (later : List (Pending α))
    (left right : Pending α) (earlier : List (Pending α)) :
    ObeysRun R (mergeNeighbours less threshold later left right earlier) := by
  unfold mergeNeighbours
  exact obeysRun_bind (obeysRun_merge hless _ _ _) fun _ => obeysRun_pure _

theorem obeysRun_mergeDeeper (depth fuel : Nat) :
    ∀ stack : Stack α Error, ObeysRun R (mergeDeeper less depth fuel stack) := by
  induction fuel with
  | zero => exact fun stack => obeysRun_pure stack
  | succ fuel ih =>
    intro stack
    unfold mergeDeeper
    split
    · split
      · exact obeysRun_bind (obeysRun_mergeNeighbours hless _ _ _ _ _) fun next => ih next
      · exact obeysRun_pure stack
    · exact obeysRun_pure stack

theorem obeysRun_settle (n size : Nat) (stack : Stack α Error) :
    ObeysRun R (settle less n size stack) := by
  unfold settle
  split
  · exact obeysRun_pure stack
  · exact obeysRun_bind (obeysRun_mergeDeeper hless _ _ stack) fun _ => obeysRun_pure _

theorem obeysRun_mergeAll (fuel : Nat) :
    ∀ stack : Stack α Error, ObeysRun R (mergeAll less fuel stack) := by
  induction fuel with
  | zero => exact fun stack => obeysRun_pure stack
  | succ fuel ih =>
    intro stack
    unfold mergeAll
    split
    · split
      · exact obeysRun_bind (obeysRun_mergeNeighbours hless _ _ _ _ _) fun next => ih next
      · exact obeysRun_bind (obeysRun_mergeNeighbours hless _ _ _ _ _) fun next => ih next
    · exact obeysRun_mergeNeighbours hless _ _ _ _ _
    · exact obeysRun_pure stack

theorem obeysRun_sortRuns (n least fuel : Nat) :
    ∀ (stack : Stack α Error) (xs : List α), ObeysRun R (sortRuns less n least fuel stack xs) := by
  induction fuel with
  | zero => exact fun stack xs => obeysRun_pure _
  | succ fuel ih =>
    intro stack xs
    unfold sortRuns
    split
    · exact obeysRun_bind (obeysRun_mergeAll hless _ stack) fun _ => obeysRun_pure _
    · refine obeysRun_bind (obeysRun_nextRun hless least xs) fun next => ?_
      obtain ⟨⟨run, failure⟩, rest⟩ := next
      cases failure with
      | some e => exact obeysRun_pure _
      | none =>
        refine obeysRun_bind (obeysRun_settle hless n _ stack) fun settled => ?_
        split
        · exact obeysRun_pure _
        · exact ih _ _

theorem obeysRun_sort (xs : List α) : ObeysRun R (sort less xs) := by
  unfold sort
  dsimp only
  split
  · exact obeysRun_pure _
  · exact obeysRun_sortRuns hless _ _ _ _ xs

theorem obeysRun_sortTowards (descending : Bool) (xs : List α) :
    ObeysRun R (sortTowards less descending xs) := by
  unfold sortTowards
  split
  · exact obeysRun_bind (obeysRun_sort hless _) fun _ => obeysRun_pure _
  · exact obeysRun_sort hless xs

end Recordset.Sorting
