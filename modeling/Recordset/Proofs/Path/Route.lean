import Recordset.Path
import Recordset.Proofs.Action
set_option autoImplicit false

/-!
# The names of a path

A written path goes through names (`Path.route`).  The value at the path is what the names are
followed to, and the field at the path is dropped where the names end.
-/

namespace Recordset.Path

/-- The names between the dots of a path. -/
def names (path : String) : List String := (dotted path.toList).map String.ofList

/-- The names that a path goes through; none when it names the value that it starts from. -/
def route (path : String) : List String := if path = "" ∨ path = itself then [] else names path

theorem names_ne_nil (path : String) : names path ≠ [] := by
  simp [names, dotted, List.splitOn, List.splitOnP_ne_nil]

theorem route_eq {path : String} (hpath : path ≠ "") (hself : path ≠ itself) :
    route path = names path :=
  if_neg (not_or.mpr ⟨hpath, hself⟩)

theorem segments_eq_route (path : String) : segments path = (route path).map .str := by
  unfold segments route
  split
  · rfl
  · rw [names, List.map_map]
    rfl

theorem segments_eq {path : String} (hpath : path ≠ "") (hself : path ≠ itself) :
    segments path = (names path).map .str := by
  rw [segments_eq_route, route_eq hpath hself]

theorem split_eq (path : String) (s : Store) :
    split (.str path) s = .ok ((route path).map .str) :=
  congrArg Except.ok (segments_eq_route path)

/-- The value at a path is what its names are followed to. -/
theorem value_eq_follow (item : Value) (path : String) :
    value item (.str path) = follow ((route path).map .str) item := by
  refine Action.ext_execute fun s => ?_
  unfold value resolve
  rw [Action.execute_bind, Action.execute_look, split_eq]
  cases route path with
  | nil => rfl
  | cons name rest =>
    rw [List.map_cons]
    dsimp only
    rw [Action.execute_bind]
    cases (follow (.str name :: rest.map .str) item).execute s with
    | mk r t =>
      cases r with
      | error e => rfl
      | ok v => cases v <;> rfl

/-- An item has a path when the value at it is not missing. -/
theorem execute_has_of_value {item path v : Value} {s t : State}
    (hvalue : (value item path).execute s = (.ok v, t)) :
    (has item path).execute s = (.ok (!v.isMissing), t) := by
  unfold has
  rw [Action.execute_bind_of_ok hvalue]
  rfl

/-- The field at a path is dropped where its names end. -/
theorem without_eq_withoutAt (item : Value) (path : String) :
    without item (.str path) = withoutAt ((route path).map .str) item := by
  refine Action.ext_execute fun s => ?_
  unfold without
  rw [Action.execute_bind, Action.execute_look, split_eq]

end Recordset.Path
