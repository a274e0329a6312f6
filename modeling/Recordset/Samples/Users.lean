import Recordset.Samples.Products
set_option autoImplicit false

/-!
# Sample: deferred queries over users

A session that records queries over a small table of users, runs some of them over the table, and
writes one as a database query instead of running it.
-/

namespace Recordset.Samples

/-- A user. -/
def user (id : Int) (name status : String) (age : Int) : Expr :=
  record [("id", .int id), ("name", .str name), ("status", .str status), ("age", .int age)]

/-- The table of users. -/
def userTable : Expr :=
  .list [user 1 "Alice" "active" 30, user 2 "Bob" "inactive" 17, user 3 "Carol" "active" 25]

/-- The condition of a database query that a recorded operation stands for. -/
def condition? (s : Store) (o : Operation) : Except Error (Option String) := do
  let write (key sign v : Value) : Except Error (Option String) := do
    return some ((← s.text key) ++ " " ++ (← s.text sign) ++ " " ++ (← s.shown v))
  if (← o.nameText) = Method.name .select then
    match o.args with
    | [key, v] => write key (.str "=") v
    | [key, sign, v] => write key sign v
    | _ => return none
  else return none

/-- The database query that recorded operations stand for. -/
def databaseQuery (s : Store) (operations : List Operation) : Except Error String := do
  let conditions := (← operations.mapM (condition? s)).filterMap id
  let selection := if conditions.isEmpty then "" else " WHERE " ++ " AND ".intercalate conditions
  return "SELECT * FROM users" ++ selection

/-- The recorded operations of a builder. -/
def operationsOf (v : Value) : Action (List Operation) := do
  match v with
  | .ref a => return (← Builder.read a).operations
  | _ => return []

/-- The session over users. -/
def users : Action Unit := do
  let users ← Builder.make (← evaluate (.memory userTable none)) .null []
  let active ← send users "where" [.str "status", .str "active"]
  let byAge ← send active "sort" [.str "age"]
  say [.str "Plan:", ← send byAge "explain" []]
  let found ← Action.iterate (← send active "await" [])
  let names ← found.mapM fun u => Action.look (Store.item · u (.str "name"))
  say [.str "Active:", ← Action.make (.list names)]
  let youngest ← send (← send byAge "first" []) "await" []
  say [.str "Youngest active:", ← Action.look (Store.item · youngest (.str "name"))]
  say [.str "By status:", ← send (← send users "count_by" [.str "status"]) "await" []]
  let adults ← send active "where" [.str "age", .str ">=", .int 18]
  let operations ← operationsOf adults
  say [.str "SQL:", .str (← Action.look (databaseQuery · operations))]

end Recordset.Samples
