import Recordset.Script.Eval
set_option autoImplicit false

/-!
# Sample: products

A session over a small table of products: queries, groups, aggregates, changes in place and a page.
It prints what it finds.
-/

namespace Recordset.Samples

/-- Prints values with blanks between them, on a line. -/
def say (parts : List Value) : Action Unit := do
  let texts ← parts.mapM fun v => Action.look (Store.text · v)
  Action.print (" ".intercalate texts ++ "\n")

/-- A mapping from names to values. -/
def record (fields : List (String × Value)) : Expr :=
  .dict (fields.map fun f => .lit (.str f.1)) (fields.map fun f => .lit f.2)

/-- A mapping from names to the values of expressions. -/
def nested (fields : List (String × Expr)) : Expr :=
  .dict (fields.map fun f => .lit (.str f.1)) (fields.map (·.2))

/-- Evaluates an expression on its own. -/
def evaluate (e : Expr) : Action Value := e.eval apply {}

/-- Calls a method. -/
def send (v : Value) (name : String) (args : List Value) : Action Value :=
  invoke apply v name ⟨args, []⟩

/-- A field of the argument of a callback. -/
def field (name : String) : Expr := .item (.arg 0) (.lit (.str name))

/-- A callback of one argument. -/
def callback (body : Expr) : Expr := .function false { positional := 1 } body

/-- A product. -/
def product (id : Int) (name category : String) (price stock : Int) : Expr :=
  record [("id", .int id), ("name", .str name), ("categoria", .str category),
    ("price", .int price), ("stock", .int stock)]

/-- The table of products. -/
def productTable : Expr :=
  .list [product 1 "Keyboard" "perifericos" 45 12, product 2 "Mouse" "perifericos" 20 0,
    product 3 "Monitor" "pantallas" 180 4]

/-- Prints a group of products: how many there are and what their stock is worth. -/
def sayGroup (name group : Value) : Action Unit := do
  let worth ← evaluate (callback (.binary .mul (field "price") (field "stock")))
  let count ← Action.look (Store.length · group)
  let total ← send group "sum" [worth]
  let text ← Action.look (Store.text · name)
  let totalText ← Action.look (Store.text · total)
  Action.print (text ++ ": " ++ toString count ++ " product(s), stock value " ++ totalText ++ "\n")

/-- Prints the groups of a mapping. -/
def sayGroups : Entries → Action Unit
  | [] => return
  | (name, group) :: rest => do
    sayGroup name group
    sayGroups rest

/-- The session over products. -/
def products : Action Unit := do
  let table ← evaluate productTable
  let products := Value.ref (← Collection.construct table .null none none)
  let cheap ← evaluate
    (nested [("price", record [("$lt", .int 100)]), ("stock", record [("$gt", .int 0)])])
  let affordable ← send products "filter" [cheap]
  say [.str "Affordable and in stock:", ← send affordable "join" [.str "name"]]
  let expensive ← send products "where" [.str "price", .str ">=", .int 100]
  let names ← send expensive "map" [← evaluate (callback (field "name"))]
  say [.str "Expensive:", ← send names "to_list" []]
  let groups ← send products "group_by" [.str "categoria"]
  sayGroups (((← get).store.entries? groups).getD [])
  say [.str "Average price:", ← send products "avg" [.str "price"]]
  let sorted ← send products "sort_by_desc" [.str "price"]
  say [.str "Names:", ← send sorted "join" [.str "name", .str ", ", .str " and "]]
  let soldOut ← evaluate (record [("stock", .int 0)])
  let patch ← evaluate (record [("available", .bool false)])
  let updated ← send products "update" [soldOut, patch]
  let _ ← send updated "forget" [.str "stock"]
  say [.str "After update:", ← send products "stringify" [.null, .int 2]]
  let page ← send products "paginate" [.int 1, .int 2]
  let items ← Action.look (Store.item · page (.str "items"))
  let next ← Action.look (Store.item · page (.str "next"))
  say [.str "Page 1:", ← send items "to_json" [], .str "next:", next]

end Recordset.Samples
