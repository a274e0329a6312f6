import Recordset.Sorting.Run
set_option autoImplicit false

/-!
# Merging two runs

Two sorted runs are merged into one; of equal elements those of the left run come first.  The merge
takes one element after another while neither run wins for long.  When one has won `threshold` times
in a row it gallops: it searches how much of one run goes before the head of the other and takes
that much at once, in turns, as long as this pays.  Galloping that pays lowers the threshold, and
leaving it raises it.

A merge goes from the front when the left run is the shorter one, and from the back otherwise.  When
a comparison fails, what is left of both runs follows, or goes before, what has been merged.
-/

namespace Recordset.Sorting

variable {α ε : Type} {m : Type → Type} [Monad m]

/-- How a merge goes on: counting how often in a row each run has won, or galloping. -/
inductive Pace where
  | counting (left right : Nat)
  | galloping

/-- The fewest elements taken at once that make galloping pay. -/
def worthwhile : Nat := 7

/-- The pace after one of the runs has won `wins` times in a row. -/
def Pace.after (threshold wins : Nat) (counting : Pace) : Pace :=
  if threshold ≤ wins then .galloping else counting

/-- The pace and the threshold after a round of galloping that took so many elements of each. -/
def Pace.next (threshold first second : Nat) : Pace × Nat :=
  if worthwhile ≤ first ∨ worthwhile ≤ second then (.galloping, threshold - min 1 (threshold - 1))
  else (.counting 0 0, threshold + 1)

/-- A merged list as far as it got, and the threshold for the next merge. -/
structure Merged (α ε : Type) where
  items : List α
  threshold : Nat
  failure : Option ε := none

/-- The end of a merge from the front: `done` holds what is merged, the last element first. -/
def endForward (threshold : Nat) (done left right : List α) : Merged α ε where
  items := done.reverse ++ if left.length ≤ 1 then right ++ left else left ++ right
  threshold := threshold

/-- A merge from the front that failed. -/
def failForward (threshold : Nat) (done left right : List α) (e : ε) : Merged α ε where
  items := done.reverse ++ left ++ right
  threshold := threshold
  failure := some e

/-- Goes on with a merge from the front. -/
def mergeForward (less : Less α ε m) (pace : Pace) (threshold : Nat) (done left right : List α) :
    m (Merged α ε) :=
  match left, right with
  | x :: x' :: xs, y :: ys => do
    let left := x :: x' :: xs
    match pace with
    | .counting wonLeft wonRight =>
      match ← (less y x).run with
      | .error e => return failForward threshold done left (y :: ys) e
      | .ok true =>
        let pace := Pace.after threshold (wonRight + 1) (.counting 0 (wonRight + 1))
        mergeForward less pace threshold (y :: done) left ys
      | .ok false =>
        let pace := Pace.after threshold (wonLeft + 1) (.counting (wonLeft + 1) 0)
        mergeForward less pace threshold (x :: done) (x' :: xs) (y :: ys)
    | .galloping =>
      match ← (gallop (notBefore less y left.toArray) left.length 0).run with
      | .error e => return failForward threshold done left (y :: ys) e
      | .ok first =>
        let done := (left.take first).reverse ++ done
        match left.drop first with
        | x :: x' :: xs =>
          let done := y :: done
          if ys.isEmpty then return endForward threshold done (x :: x' :: xs) []
          else
            match ← (gallop (isBefore less ys.toArray x) ys.length 0).run with
            | .error e => return failForward threshold done (x :: x' :: xs) ys e
            | .ok second =>
              let done := (ys.take second).reverse ++ done
              let ys := ys.drop second
              if ys.isEmpty then return endForward threshold done (x :: x' :: xs) []
              else if xs.isEmpty then return endForward threshold (x :: done) [x'] ys
              else
                let (pace, threshold) := Pace.next threshold first second
                mergeForward less pace threshold (x :: done) (left.drop (first + 1)) ys
        | rest => return endForward threshold done rest (y :: ys)
  | _, _ => return endForward threshold done left right
termination_by left.length + right.length

/-- The end of a merge from the back: both runs have their last elements first. -/
def endBackward (threshold : Nat) (left right done : List α) : Merged α ε where
  items := (if right.length ≤ 1 then right.reverse ++ left.reverse
    else left.reverse ++ right.reverse) ++ done
  threshold := threshold

/-- A merge from the back that failed. -/
def failBackward (threshold : Nat) (left right done : List α) (e : ε) : Merged α ε where
  items := left.reverse ++ right.reverse ++ done
  threshold := threshold
  failure := some e

/-- Goes on with a merge from the back; both runs have their last elements first. -/
def mergeBackward (less : Less α ε m) (pace : Pace) (threshold : Nat) (left right done : List α) :
    m (Merged α ε) :=
  match left, right with
  | x :: xs, y :: y' :: ys => do
    let right := y :: y' :: ys
    match pace with
    | .counting wonLeft wonRight =>
      match ← (less y x).run with
      | .error e => return failBackward threshold (x :: xs) right done e
      | .ok true =>
        let pace := Pace.after threshold (wonLeft + 1) (.counting (wonLeft + 1) 0)
        mergeBackward less pace threshold xs right (x :: done)
      | .ok false =>
        let pace := Pace.after threshold (wonRight + 1) (.counting 0 (wonRight + 1))
        mergeBackward less pace threshold (x :: xs) (y' :: ys) (y :: done)
    | .galloping =>
      let size := xs.length + 1
      match ← (gallop (notBefore less y (x :: xs).reverse.toArray) size (size - 1)).run with
      | .error e => return failBackward threshold (x :: xs) right done e
      | .ok place =>
        let first := size - place
        let done := ((x :: xs).take first).reverse ++ done
        match (x :: xs).drop first with
        | [] => return endBackward threshold [] right done
        | x :: xs' =>
          let done := y :: done
          let right := y' :: ys
          if ys.isEmpty then return endBackward threshold (x :: xs') right done
          else
            let size := right.length
            match ← (gallop (isBefore less right.reverse.toArray x) size (size - 1)).run with
            | .error e => return failBackward threshold (x :: xs') right done e
            | .ok place =>
              let second := size - place
              let done := (right.take second).reverse ++ done
              let right := right.drop second
              if right.length ≤ 1 then return endBackward threshold (x :: xs') right done
              else if xs'.isEmpty then return endBackward threshold [] right (x :: done)
              else
                let (pace, threshold) := Pace.next threshold first second
                mergeBackward less pace threshold (xs.drop first) right (x :: done)
  | _, _ => return endBackward threshold left right done
termination_by left.length + right.length

/-- Merges two runs that are not empty.  What of the left run goes before the whole right one, and
what of the right run goes behind the whole left one, stays where it is. -/
def merge (less : Less α ε m) (threshold : Nat) (left right : List α) : m (Merged α ε) := do
  let unmoved (failure : Option ε) : Merged α ε := { items := left ++ right, threshold, failure }
  match right.head? with
  | none => return unmoved none
  | some y =>
    match ← (gallop (notBefore less y left.toArray) left.length 0).run with
    | .error e => return unmoved (some e)
    | .ok first =>
      let moving := left.drop first
      match moving.getLast? with
      | none => return unmoved none
      | some x =>
        match ← (gallop (isBefore less right.toArray x) right.length (right.length - 1)).run with
        | .error e => return unmoved (some e)
        | .ok second =>
          let coming := right.take second
          let merged ←
            if coming.isEmpty then pure { items := moving, threshold }
            else if moving.length ≤ coming.length then
              mergeForward less (.counting 0 0) threshold (coming.take 1) moving (coming.drop 1)
            else
              mergeBackward less (.counting 0 0) threshold (moving.reverse.drop 1) coming.reverse
                [x]
          return { merged with items := left.take first ++ merged.items ++ right.drop second }

end Recordset.Sorting
