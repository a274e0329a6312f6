import Recordset.Sorting.Merge
set_option autoImplicit false

/-!
# Stable sorting by comparisons that may fail

The order of the comparisons shows when a comparison has an effect, fails, or is no order at all, so
the method is part of what is promised.  The sort cuts the list into runs and merges neighbours as
it goes on.  The boundary between two runs has a depth: that of the first cut between their middles
when the whole list is halved again and again.  Before a new boundary is put on the stack, all
deeper ones are merged away.

When a comparison fails the sort stops and gives the list as far as it is rearranged.
-/

namespace Recordset.Sorting

variable {α ε : Type} {m : Type → Type} [Monad m]

/-- A run that waits to be merged, and the depth of the boundary behind it. -/
structure Pending (α : Type) where
  items : List α
  depth : Nat := 0

/-- The elements of runs that wait, the last run first. -/
def waiting (runs : List (Pending α)) : List α := (runs.map Pending.items).reverse.flatten

/-- How often the whole, of length `n`, has to be halved until a cut comes between two places, each
given by its double. -/
def cutDepth (n : Nat) : Nat → Nat → Nat → Nat
  | 0, _, _ => 0
  | fuel + 1, a, b =>
    if n ≤ a then 1 + cutDepth n fuel (2 * (a - n)) (2 * (b - n))
    else if n ≤ b then 1
    else 1 + cutDepth n fuel (2 * a) (2 * b)

/-- The depth of the boundary between two neighbours in a list of `n`; `start` elements come before
them. -/
def boundaryDepth (n start left right : Nat) : Nat :=
  let a := 2 * start + left
  cutDepth n (n + 1) a (a + left + right)

/-- Runs after a merge of two of them, with the threshold for the next one. -/
structure Stack (α ε : Type) where
  runs : List (Pending α)
  threshold : Nat := worthwhile
  failure : Option ε := none

/-- Merges two neighbours; `later` runs lie behind them and `earlier` ones before. -/
def mergeNeighbours (less : Less α ε m) (threshold : Nat) (later : List (Pending α))
    (left right : Pending α) (earlier : List (Pending α)) : m (Stack α ε) := do
  let merged ← merge less threshold left.items right.items
  return {
    runs := later ++ { left with items := merged.items } :: earlier
    threshold := merged.threshold
    failure := merged.failure }

/-- Merges the last two runs while the boundary between them is deeper than `depth`. -/
def mergeDeeper (less : Less α ε m) (depth : Nat) : Nat → Stack α ε → m (Stack α ε)
  | 0, s => return s
  | fuel + 1, s =>
    match s.failure, s.runs with
    | none, right :: left :: earlier =>
      if depth < left.depth then do
        mergeDeeper less depth fuel (← mergeNeighbours less s.threshold [] left right earlier)
      else return s
    | _, _ => return s

/-- Notes the depth of the boundary behind the last run. -/
def setDepth (depth : Nat) : List (Pending α) → List (Pending α)
  | [] => []
  | run :: earlier => { run with depth } :: earlier

/-- Makes room for a new run of length `size` in a list of `n`. -/
def settle (less : Less α ε m) (n size : Nat) (s : Stack α ε) : m (Stack α ε) := do
  match s.runs with
  | [] => return s
  | last :: earlier =>
    let depth := boundaryDepth n (waiting earlier).length last.items.length size
    let s ← mergeDeeper less depth s.runs.length s
    return { s with runs := setDepth depth s.runs }

/-- Merges all runs: the last two, or the two before the last when the one in front of them is
shorter than the last. -/
def mergeAll (less : Less α ε m) : Nat → Stack α ε → m (Stack α ε)
  | 0, s => return s
  | fuel + 1, s =>
    match s.failure, s.runs with
    | none, last :: right :: left :: earlier => do
      let next ←
        if left.items.length < last.items.length then
          mergeNeighbours less s.threshold [last] left right earlier
        else mergeNeighbours less s.threshold [] right last (left :: earlier)
      mergeAll less fuel next
    | none, [right, left] => mergeNeighbours less s.threshold [] left right []
    | _, _ => return s

/-- Cuts a list into runs and merges them. -/
def sortRuns (less : Less α ε m) (n least : Nat) : Nat → Stack α ε → List α → m (Rearranged α ε)
  | 0, s, xs => return (waiting s.runs ++ xs, s.failure)
  | fuel + 1, s, xs =>
    if xs.isEmpty then do
      let s ← mergeAll less s.runs.length s
      return (waiting s.runs, s.failure)
    else do
      let ((run, failure), rest) ← nextRun less least xs
      match failure with
      | some e => return (waiting s.runs ++ run ++ rest, some e)
      | none =>
        let s ← settle less n run.length s
        match s.failure with
        | some e => return (waiting s.runs ++ run ++ rest, some e)
        | none => sortRuns less n least fuel { s with runs := { items := run } :: s.runs } rest

/-- Sorts a list. -/
def sort (less : Less α ε m) (xs : List α) : m (Rearranged α ε) :=
  let n := xs.length
  if n < 2 then return (xs, none)
  else sortRuns less n (runLength n 0 n) (n + 1) { runs := [] } xs

/-- Sorts a list, and turns the order round when asked to; equal elements keep their order in both
directions. -/
def sortTowards (less : Less α ε m) (descending : Bool) (xs : List α) : m (Rearranged α ε) := do
  if descending then
    let (ys, failure) ← sort less xs.reverse
    return (ys.reverse, failure)
  else sort less xs

end Recordset.Sorting
