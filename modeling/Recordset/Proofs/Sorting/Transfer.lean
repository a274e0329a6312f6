import Recordset.Sorting.Basic
set_option autoImplicit false

/-!
# Sorts carried over

A sort does nothing with its comparisons but make them one after another.  So whatever carries
computations of one kind over to computations of another kind, step by step, carries a sort by
comparisons over to the sort by the comparisons carried over.

`carry_sortTowards` is the main statement.
-/

namespace Recordset.Sorting

/-- Carries computations of one kind over to computations of another kind, step by step. -/
structure Transfer (m n : Type → Type) [Monad m] [Monad n] where
  carry : {α : Type} → m α → n α
  carry_pure : ∀ {α : Type} (a : α), carry (pure a) = pure a
  carry_bind : ∀ {α β : Type} (x : m α) (f : α → m β),
    carry (x >>= f) = carry x >>= fun a => carry (f a)

namespace Transfer

variable {m n : Type → Type} [Monad m] [Monad n] {α β ε : Type} (φ : Transfer m n)

/-- A computation that may fail, carried over. -/
def lift (x : ExceptT ε m α) : ExceptT ε n α := ExceptT.mk (φ.carry x.run)

theorem carry_run (x : ExceptT ε m α) : φ.carry x.run = (φ.lift x).run := rfl

theorem lift_pure (a : α) : φ.lift (pure a : ExceptT ε m α) = pure a :=
  φ.carry_pure (Except.ok a : Except ε α)

theorem lift_bind (x : ExceptT ε m α) (f : α → ExceptT ε m β) :
    φ.lift (x >>= f) = φ.lift x >>= fun a => φ.lift (f a) := by
  refine (φ.carry_bind _ _).trans ?_
  show φ.carry x.run >>= _ = φ.carry x.run >>= _
  refine congrArg (φ.carry x.run >>= ·) (funext fun r => ?_)
  cases r with
  | ok a => rfl
  | error e => exact φ.carry_pure _

/-- Comparisons carried over. -/
def less (cmp : Less α ε m) : Less α ε n := fun x y => φ.lift (cmp x y)

/-! ## Searching -/

theorem lift_bisect (leading : Leading ε m) (fuel : Nat) : ∀ low high,
    φ.lift (bisect leading fuel low high) = bisect (fun i => φ.lift (leading i)) fuel low high := by
  induction fuel with
  | zero => exact fun low high => φ.lift_pure low
  | succ fuel ih =>
    intro low high
    unfold bisect
    split
    · dsimp only
      rw [lift_bind]
      refine bind_congr fun b => ?_
      rw [apply_ite φ.lift, ih, ih]
    · exact φ.lift_pure low

theorem lift_stride (ask : Leading ε m) (limit fuel : Nat) : ∀ last next,
    φ.lift (stride ask limit fuel last next) =
      stride (fun i => φ.lift (ask i)) limit fuel last next := by
  induction fuel with
  | zero => exact fun last next => φ.lift_pure _
  | succ fuel ih =>
    intro last next
    unfold stride
    split
    · rw [lift_bind]
      refine bind_congr fun b => ?_
      rw [apply_ite φ.lift, ih, lift_pure]
    · exact φ.lift_pure _

theorem lift_gallop (leading : Leading ε m) (size guess : Nat) :
    φ.lift (gallop leading size guess) = gallop (fun i => φ.lift (leading i)) size guess := by
  unfold gallop
  rw [lift_bind]
  refine bind_congr fun b => ?_
  rw [apply_ite φ.lift, lift_bind, lift_bind, lift_stride, lift_stride]
  simp only [lift_bisect, lift_bind, lift_pure]

variable (cmp : Less α ε m)

theorem lift_notBefore (x : α) (xs : Array α) (i : Nat) :
    φ.lift (notBefore cmp x xs i) = notBefore (φ.less cmp) x xs i := by
  unfold notBefore
  split
  · rw [lift_bind]
    simp only [lift_pure]
    rfl
  · exact φ.lift_pure false

theorem lift_isBefore (xs : Array α) (x : α) (i : Nat) :
    φ.lift (isBefore cmp xs x i) = isBefore (φ.less cmp) xs x i := by
  unfold isBefore
  split
  · rfl
  · exact φ.lift_pure false

/-! ## Runs -/

theorem lift_placeOf (x : α) (sorted : List α) :
    φ.lift (placeOf cmp x sorted) = placeOf (φ.less cmp) x sorted := by
  unfold placeOf
  simp only [lift_bisect, lift_notBefore]

theorem carry_insertAll (xs : List α) : ∀ sorted : List α,
    φ.carry (insertAll cmp sorted xs) = insertAll (φ.less cmp) sorted xs := by
  induction xs with
  | nil => exact fun sorted => φ.carry_pure _
  | cons x rest ih =>
    intro sorted
    unfold insertAll
    rw [carry_bind, carry_run, lift_placeOf]
    refine bind_congr fun r => ?_
    cases r with
    | ok place => exact ih _
    | error e => exact φ.carry_pure _

theorem lift_takeRun (descending : Bool) (xs : List α) : ∀ last,
    φ.lift (takeRun cmp descending last xs) = takeRun (φ.less cmp) descending last xs := by
  induction xs with
  | nil => exact fun last => φ.lift_pure _
  | cons x rest ih =>
    intro last
    unfold takeRun
    rw [lift_bind]
    refine bind_congr fun b => ?_
    rw [apply_ite φ.lift, lift_bind, ih, lift_pure]
    simp only [lift_pure]

theorem lift_firstRun (xs : List α) : φ.lift (firstRun cmp xs) = firstRun (φ.less cmp) xs := by
  unfold firstRun
  split
  · simp only [lift_bind, lift_takeRun, lift_pure]
    rfl
  · exact φ.lift_pure _

theorem carry_nextRun (least : Nat) (xs : List α) :
    φ.carry (nextRun cmp least xs) = nextRun (φ.less cmp) least xs := by
  unfold nextRun
  rw [carry_bind, carry_run, lift_firstRun]
  refine bind_congr fun r => ?_
  cases r with
  | ok found => simp only [carry_bind, carry_insertAll, carry_pure]
  | error e => exact φ.carry_pure _

/-! ## Merges -/

theorem carry_mergeForward (pace : Pace) (threshold : Nat) (done left right : List α) :
    φ.carry (mergeForward cmp pace threshold done left right) =
      mergeForward (φ.less cmp) pace threshold done left right := by
  induction hsize : left.length + right.length using Nat.strongRecOn
    generalizing pace threshold done left right with
  | _ size ih =>
    unfold mergeForward
    split
    · rename_i x x' xs y ys
      cases pace with
      | counting wonLeft wonRight =>
        dsimp only
        rw [carry_bind, carry_run]
        refine bind_congr fun r => ?_
        cases r with
        | error e => exact φ.carry_pure _
        | ok b =>
          cases b with
          | true => exact ih _ (by subst hsize; simp) _ _ _ _ _ rfl
          | false => exact ih _ (by subst hsize; simp) _ _ _ _ _ rfl
      | galloping =>
        dsimp only
        rw [carry_bind, carry_run, lift_gallop]
        simp only [lift_notBefore]
        refine bind_congr fun r => ?_
        cases r with
        | error e => exact φ.carry_pure _
        | ok first =>
          dsimp only
          split
          · rename_i z z' zs hdrop
            split
            · exact φ.carry_pure _
            · rw [carry_bind, carry_run, lift_gallop]
              simp only [lift_isBefore]
              refine bind_congr fun r => ?_
              cases r with
              | error e => exact φ.carry_pure _
              | ok second =>
                dsimp only
                split
                · exact φ.carry_pure _
                · split
                  · exact φ.carry_pure _
                  · refine ih _ ?_ _ _ _ _ _ rfl
                    subst hsize
                    simp
                    omega
          · exact φ.carry_pure _
    · exact φ.carry_pure _

theorem carry_mergeBackward (pace : Pace) (threshold : Nat) (left right done : List α) :
    φ.carry (mergeBackward cmp pace threshold left right done) =
      mergeBackward (φ.less cmp) pace threshold left right done := by
  induction hsize : left.length + right.length using Nat.strongRecOn
    generalizing pace threshold left right done with
  | _ size ih =>
    unfold mergeBackward
    split
    · rename_i x xs y y' ys
      cases pace with
      | counting wonLeft wonRight =>
        dsimp only
        rw [carry_bind, carry_run]
        refine bind_congr fun r => ?_
        cases r with
        | error e => exact φ.carry_pure _
        | ok b =>
          cases b with
          | true => exact ih _ (by subst hsize; simp) _ _ _ _ _ rfl
          | false => exact ih _ (by subst hsize; simp) _ _ _ _ _ rfl
      | galloping =>
        dsimp only
        rw [carry_bind, carry_run, lift_gallop]
        simp only [lift_notBefore]
        refine bind_congr fun r => ?_
        cases r with
        | error e => exact φ.carry_pure _
        | ok place =>
          dsimp only
          split
          · exact φ.carry_pure _
          · rename_i z zs hdrop
            split
            · exact φ.carry_pure _
            · rw [carry_bind, carry_run, lift_gallop]
              simp only [lift_isBefore]
              refine bind_congr fun r => ?_
              cases r with
              | error e => exact φ.carry_pure _
              | ok place =>
                dsimp only
                split
                · exact φ.carry_pure _
                · split
                  · exact φ.carry_pure _
                  · refine ih _ ?_ _ _ _ _ _ rfl
                    subst hsize
                    simp
                    omega
    · exact φ.carry_pure _

theorem carry_merge (threshold : Nat) (left right : List α) :
    φ.carry (merge cmp threshold left right) = merge (φ.less cmp) threshold left right := by
  unfold merge
  cases right.head? with
  | none => exact φ.carry_pure _
  | some y =>
    dsimp only
    rw [carry_bind, carry_run, lift_gallop]
    simp only [lift_notBefore]
    refine bind_congr fun r => ?_
    cases r with
    | error e => exact φ.carry_pure _
    | ok first =>
      dsimp only
      cases (left.drop first).getLast? with
      | none => exact φ.carry_pure _
      | some x =>
        dsimp only
        rw [carry_bind, carry_run, lift_gallop]
        simp only [lift_isBefore]
        refine bind_congr fun r => ?_
        cases r with
        | error e => exact φ.carry_pure _
        | ok second =>
          dsimp only
          split
          · simp only [carry_bind, carry_pure]
          · split
            · simp only [carry_bind, carry_mergeForward, carry_pure]
            · simp only [carry_bind, carry_mergeBackward, carry_pure]

/-! ## Sorts -/

theorem carry_mergeNeighbours (threshold : Nat) (later : List (Pending α)) (left right : Pending α)
    (earlier : List (Pending α)) :
    φ.carry (mergeNeighbours cmp threshold later left right earlier) =
      mergeNeighbours (φ.less cmp) threshold later left right earlier := by
  unfold mergeNeighbours
  simp only [carry_bind, carry_merge, carry_pure]

theorem carry_mergeDeeper (depth fuel : Nat) : ∀ stack : Stack α ε,
    φ.carry (mergeDeeper cmp depth fuel stack) = mergeDeeper (φ.less cmp) depth fuel stack := by
  induction fuel with
  | zero => exact fun stack => φ.carry_pure stack
  | succ fuel ih =>
    intro stack
    unfold mergeDeeper
    split
    · split
      · simp only [carry_bind, carry_mergeNeighbours, ih]
      · exact φ.carry_pure stack
    · exact φ.carry_pure stack

theorem carry_settle (size length : Nat) (stack : Stack α ε) :
    φ.carry (settle cmp size length stack) = settle (φ.less cmp) size length stack := by
  unfold settle
  split
  · exact φ.carry_pure stack
  · simp only [carry_bind, carry_mergeDeeper, carry_pure]

theorem carry_mergeAll (fuel : Nat) : ∀ stack : Stack α ε,
    φ.carry (mergeAll cmp fuel stack) = mergeAll (φ.less cmp) fuel stack := by
  induction fuel with
  | zero => exact fun stack => φ.carry_pure stack
  | succ fuel ih =>
    intro stack
    unfold mergeAll
    split
    · split
      · simp only [carry_bind, carry_mergeNeighbours, ih]
      · simp only [carry_bind, carry_mergeNeighbours, ih]
    · exact φ.carry_mergeNeighbours cmp _ _ _ _ _
    · exact φ.carry_pure stack

theorem carry_sortRuns (size least fuel : Nat) : ∀ (stack : Stack α ε) (xs : List α),
    φ.carry (sortRuns cmp size least fuel stack xs) =
      sortRuns (φ.less cmp) size least fuel stack xs := by
  induction fuel with
  | zero => exact fun stack xs => φ.carry_pure _
  | succ fuel ih =>
    intro stack xs
    unfold sortRuns
    split
    · simp only [carry_bind, carry_mergeAll, carry_pure]
    · rw [carry_bind, carry_nextRun]
      refine bind_congr fun next => ?_
      obtain ⟨⟨run, failure⟩, rest⟩ := next
      cases failure with
      | some e => exact φ.carry_pure _
      | none =>
        dsimp only
        rw [carry_bind, carry_settle]
        refine bind_congr fun settled => ?_
        split
        · exact φ.carry_pure _
        · exact ih _ _

theorem carry_sort (xs : List α) : φ.carry (sort cmp xs) = sort (φ.less cmp) xs := by
  unfold sort
  dsimp only
  split
  · exact φ.carry_pure _
  · exact φ.carry_sortRuns cmp _ _ _ _ xs

/-- A sort carried over is the sort by the comparisons carried over. -/
theorem carry_sortTowards (descending : Bool) (xs : List α) :
    φ.carry (sortTowards cmp descending xs) = sortTowards (φ.less cmp) descending xs := by
  unfold sortTowards
  split
  · simp only [carry_bind, carry_sort, carry_pure]
  · exact φ.carry_sort cmp xs

end Transfer

end Recordset.Sorting
