import Recordset.Query.Expression
set_option autoImplicit false

/-!
# Compiling queries

A query is written as a mapping from paths to clauses, or as a predicate.  The key that negates
holds another query.  A clause is a pattern to be found, an object of operators, all of which have
to hold, or a value to be equal to.  A query that is malformed anywhere is refused as a whole, when
it is compiled and before it meets an item.

`fuel` bounds the nesting of the query; a query without cycles never exhausts it.
-/

namespace Recordset.Query

/-- A text that starts with the sign of operators. -/
def isOperatorName (t : String) : Bool := t.toList.head? == some '$'

/-- A key that is the name of an operator. -/
def isOperatorKey : Value → Bool
  | .str t => isOperatorName t
  | _ => false

/-- The entries of an object of operators; none when the clause is a plain value.  An object that
has plain fields beside operators is refused. -/
def operators? (clause : Value) : Action (Option Entries) := do
  let s := (← get).store
  match s.entries? clause with
  | none => return none
  | some es =>
    if !es.any fun e => isOperatorKey e.1 then return none
    else if es.all fun e => isOperatorKey e.1 then return some es
    else
      let keys ← Action.ofExcept (es.mapM fun e => s.shown e.1)
      Action.refuse (.mixedOperators ("[" ++ Store.commaSeparated keys ++ "]"))

/-- The factory of a custom operator, under its symbol or under the symbol without its sign. -/
def factory? (symbol : String) (validators : Value) : Action (Option Value) := do
  let s := (← get).store
  match s.entries? validators with
  | none => return none
  | some es =>
    let found := match Entries.find? s es (.str symbol) with
      | some f => some f
      | none => Entries.find? s es (.str (String.ofList (symbol.toList.drop 1)))
    match found with
    | some .null => return none
    | f => return f

/-- The term of a custom operator: its factory is called with the path and the operand, and has to
give a predicate. -/
def customTerm (caller : Caller) (validators path : Value) (symbol : String) (operand : Value) :
    Action Expression := do
  match ← factory? symbol validators with
  | none => Action.refuse (.unknownOperator symbol)
  | some f =>
    let predicate ← caller f [path, operand]
    let s := (← get).store
    if s.isCallable predicate then return .custom path symbol predicate
    else Action.refuse (.notAPredicate symbol (s.kind predicate))

/-- A single expression, or the conjunction of several. -/
def conjunction : List Expression → Expression
  | [e] => e
  | es => .all es

/-- Compiles each entry of a mapping, in order. -/
def compileEach (compile : Value → Value → Action Expression) :
    Entries → Action (List Expression)
  | [] => return []
  | (key, v) :: rest => do
    let e ← compile key v
    let es ← compileEach compile rest
    return e :: es

/-- Compiles the clause for one path. -/
def compileClauseAt (caller : Caller) (validators path : Value) :
    Nat → Value → Action Expression
  | 0, _ => Action.fault .recursion
  | fuel + 1, clause =>
    match clause with
    | .pattern _ => return .term path .found clause
    | _ => do
      match ← operators? clause with
      | none => return .term path .equal clause
      | some es =>
        let parts ← compileEach (fun key operand => do
          match key with
          | .str symbol =>
            if symbol = Operator.negation then
              return .not (← compileClauseAt caller validators path fuel operand)
            else
              match Operator.ofSymbol? symbol with
              | some op => return .term path op (← op.prepare operand)
              | none => customTerm caller validators path symbol operand
          | _ => Action.fault .type) es
        return conjunction parts

/-- Compiles the clause for one path. -/
def compileClause (caller : Caller) (validators path clause : Value) : Action Expression := do
  compileClauseAt caller validators path (← get).store.depth clause

/-- The expression of a query that has been compiled entry by entry. -/
def assemble : List Expression → Expression
  | [] => .always
  | [e] => e
  | es => (Expression.all es).optimize

/-- Compiles a query. -/
def compileAt (caller : Caller) (validators : Value) : Nat → Value → Action Expression
  | 0, _ => Action.fault .recursion
  | fuel + 1, spec => do
    let s := (← get).store
    if s.isCallable spec then return .predicate spec
    else
      match s.entries? spec with
      | none => Action.refuse (.notAQuery (s.kind spec))
      | some es =>
        let parts ← compileEach (fun key clause => do
          let s := (← get).store
          match key with
          | .str name =>
            if name = Operator.negation then
              if s.isMapping clause || s.isCallable clause then
                return .not (← compileAt caller validators fuel clause)
              else Action.refuse (.notNested (← Action.ofExcept (s.shown clause)))
            else if isOperatorName name then Action.refuse (.unknownQueryKey name)
            else compileClause caller validators key clause
          | _ => compileClause caller validators key clause) es
        return assemble parts

/-- Compiles a query. -/
def compile (caller : Caller) (validators spec : Value) : Action Expression := do
  compileAt caller validators (← get).store.depth spec

end Recordset.Query
