import Recordset.Sorting.Search
set_option autoImplicit false

/-!
# Runs

A run is a part of a list that is in order already.  The run at the front of a list ascends, or
descends strictly and is turned round.  A run that is too short is made longer: the elements after
it are inserted one by one, each at the place that a search finds behind its equals.
-/

namespace Recordset.Sorting

variable {α ε : Type} {m : Type → Type} [Monad m]

/-- A list as far as it is rearranged, and the failure that stopped the work. -/
abbrev Rearranged (α ε : Type) := List α × Option ε

/-- The place of an element in a sorted list, behind the elements that it does not have to come
before. -/
def placeOf (less : Less α ε m) (x : α) (sorted : List α) : ExceptT ε m Nat :=
  bisect (notBefore less x sorted.toArray) sorted.length 0 sorted.length

/-- Inserts elements one by one into a sorted list. -/
def insertAll (less : Less α ε m) (sorted : List α) : List α → m (Rearranged α ε)
  | [] => return (sorted, none)
  | x :: rest => do
    match ← (placeOf less x sorted).run with
    | .ok n => insertAll less (sorted.take n ++ x :: sorted.drop n) rest
    | .error e => return (sorted ++ x :: rest, some e)

/-- The elements that go on a run: each has to come before the last one when the run descends, and
must not when it ascends. -/
def takeRun (less : Less α ε m) (descending : Bool) (last : α) :
    List α → ExceptT ε m (List α × List α)
  | [] => return ([], [])
  | x :: rest => do
    if (← less x last) == descending then
      let (run, more) ← takeRun less descending x rest
      return (x :: run, more)
    else return ([], x :: rest)

/-- The run at the front, in ascending order, and the elements after it. -/
def firstRun (less : Less α ε m) : List α → ExceptT ε m (List α × List α)
  | x :: y :: rest => do
    let descending ← less y x
    let (run, more) ← takeRun less descending y rest
    let run := x :: y :: run
    return (if descending then run.reverse else run, more)
  | xs => return (xs, [])

/-- Sorts the elements up to the end of the next run, of at least `least` elements where there are
so many; with them come the elements after it. -/
def nextRun (less : Less α ε m) (least : Nat) (xs : List α) : m (Rearranged α ε × List α) := do
  match ← (firstRun less xs).run with
  | .error e => return ((xs, some e), [])
  | .ok (run, rest) =>
    let missing := least - run.length
    let (sorted, failure) ← insertAll less run (rest.take missing)
    return ((sorted, failure), rest.drop missing)

/-- The number of elements from which on a list is cut into runs. -/
def runLimit : Nat := 64

/-- How long the runs of a list of `n` are made: `n` without its low binary digits, as many of them
as it takes to get below the limit, and one more when a digit was lost that is not zero. -/
def runLength : Nat → Nat → Nat → Nat
  | 0, lost, n => n + lost
  | fuel + 1, lost, n =>
    if n < runLimit then n + lost
    else runLength fuel (if n % 2 = 1 then 1 else lost) (n / 2)

end Recordset.Sorting
