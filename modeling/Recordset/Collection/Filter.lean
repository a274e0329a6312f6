import Recordset.Collection.Visit
set_option autoImplicit false

/-!
# Finding items

The methods that keep, find or test items.  All of them compile their query before they visit an
item.
-/

namespace Recordset.Collection

variable (caller : Caller)

/-- The items that satisfy a compiled query, in order. -/
def matching (e : Expression) (a : Address) : Action (List Value) :=
  fold a [] fun kept item i => do
    if ← drawing (e.test caller item i) then return kept ++ [item] else return kept

/-- The items that satisfy a query. -/
def filter (a : Address) (spec : Value) : Action Value := do
  let e ← compile caller a spec
  derived a (← matching caller e a)

/-- The items that satisfy a shorthand query. -/
def select (a : Address) (args : List Value) : Action Value := do
  let spec ← Query.ofShorthand args
  through caller a .filter [spec] (filter caller a spec)

/-- The items that do not satisfy a query. -/
def except (a : Address) (spec : Value) : Action Value := do
  let spec ← Action.make (.dict [(.str Operator.negation, spec)])
  through caller a .filter [spec] (filter caller a spec)

/-- The items that do not satisfy a shorthand query. -/
def reject (a : Address) (args : List Value) : Action Value := do
  except caller a (← Query.ofShorthand args)

/-- The first item that satisfies a query, or the first item; null when there is none. -/
def first (a : Address) (spec : Value) : Action Value := do
  match spec with
  | .null => return (← itemsOf a).head?.getD .null
  | _ =>
    let e ← compile caller a spec
    visit a .null fun _ item i => do
      if ← e.test caller item i then return .done item else return .next .null

/-- The first item that satisfies a query. -/
def find (a : Address) (spec : Value) : Action Value :=
  through caller a .first [spec] (first caller a spec)

/-- The last of the first `n` items that satisfies a query. -/
def lastBelow (e : Expression) (a : Address) : Nat → Action Value
  | 0 => return .null
  | n + 1 => do
    match (← itemsOf a)[n]? with
    | none => Action.fault .index
    | some item =>
      if ← e.test caller item n then
        match (← itemsOf a)[n]? with
        | some v => return v
        | none => Action.fault .index
      else lastBelow e a n

/-- The last item that satisfies a query, or the last item; null when there is none. -/
def last (a : Address) (spec : Value) : Action Value := do
  match spec with
  | .null => return (← itemsOf a).getLast?.getD .null
  | _ =>
    let e ← compile caller a spec
    lastBelow caller e a (← itemsOf a).length

/-- Whether every item satisfies a compiled query, up to the first that does not. -/
def allMatch (e : Expression) (a : Address) : Action Bool :=
  visit a true fun _ item i => do
    if ← drawing (e.test caller item i) then return .next true else return .done false

/-- Whether every item has a value at a path. -/
def allHave (a : Address) (path : Value) : Action Bool :=
  visit a true fun _ item _ => do
    if ← Path.has item path then return .next true else return .done false

/-- Whether every item passes a test: a query, a path that it has to have, or a shorthand query. -/
def every (a : Address) (args : List Value) : Action Value := do
  match args with
  | [.str path] => return .bool (← allHave a (.str path))
  | [spec] => return .bool (← allMatch caller (← compile caller a spec) a)
  | [_, _] | [_, _, _] =>
    let e ← compile caller a (← Query.ofShorthand args)
    return .bool (← allMatch caller e a)
  | _ => Action.refuse (.everyArguments args.length)

end Recordset.Collection
