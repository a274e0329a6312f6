import Recordset.Collection.Request
import Recordset.Json.OfValue
import Recordset.Output.Layout
import Recordset.Value.Plain
set_option autoImplicit false

/-!
# Presenting a collection

The items as a list, as plain values, as a JSON text, joined into one text, or printed.
-/

namespace Recordset.Collection

variable (caller : Caller)

/-- The items as a list. -/
def toList (a : Address) : Action Value := do Action.make (.list (← itemsOf a))

/-- The items as a list of plain values. -/
def toJson (a : Address) : Action Value := Action.plain (.ref a)

/-- The items as a list, by the collection's own method. -/
def all (a : Address) : Action Value := through caller a .toList [] (toList a)

/-- The items as plain values, by the collection's own method. -/
def plainItems (a : Address) : Action Value := through caller a .toJson [] (toJson a)

/-- The indentation that an argument asks for: so many blanks, or the given text. -/
def indentation (v : Value) : Action (Option String) := do
  match v with
  | .null => return none
  | .str t => return some t
  | _ =>
    match v.index? with
    | some n => return some (String.ofList (← Action.repeats .overflow [' '] n))
    | none => Action.fault .type

/-- The items as a JSON text. -/
def stringify (a : Address) (default indent : Value) : Action Value := do
  let plain ← plainItems caller a
  let indent ← indentation indent
  return .str ((← Json.ofValue caller default plain).render indent)

/-- The separator that the policy of a collection gives. -/
def policySeparator (a : Address) : Action Value := do
  match ← Action.cell (← read a).policy with
  | .policy p => return p.separator
  | _ => return .null

/-- Joins texts by a separator.  A byte string joins only nothing; what is no text has to be able to
join by itself. -/
def joinedBy (separator : Value) (texts : List String) : Action Value := do
  match separator with
  | .str t => return .str (t.intercalate texts)
  | .bytes _ => if texts.isEmpty then return .bytes [] else Action.fault .type
  | .builtin .str => Action.fault .type
  | v => do callMethod caller v Method.join.name [← Action.make (.list (texts.map .str))]

/-- The texts of the keys that are there. -/
def keyTexts (key : Key) (a : Address) : Action (List String) :=
  fold a [] fun texts item i => do
    let k ← key.draw caller item i
    if k.isMissing then return texts
    else return texts ++ [← Action.look (Store.text · k)]

/-- The texts of the keys joined by a separator, the last two by one of their own if it is given. -/
def join (a : Address) (keyOrFn separator lastSeparator : Value) : Action Value := do
  let separator ← match separator with
    | .null => policySeparator a
    | v => pure v
  let key ← keyOf keyOrFn
  let texts ← keyTexts caller key a
  match lastSeparator, texts.getLast? with
  | .null, _ | _, none => joinedBy caller separator texts
  | _, some final =>
    if texts.length < 2 then joinedBy caller separator texts
    else
      let front ← joinedBy caller separator texts.dropLast
      Request.joinTo caller (← Request.joinTo caller front lastSeparator) (.str final)

/-- Prints the items. -/
def dump (a : Address) : Action Value := do
  let plain ← plainItems caller a
  Action.print (← Action.look (Layout.printed · plain))
  return .ref a

/-- Prints the items and ends the program. -/
def dumpExit (a : Address) : Action Value := do
  let _ ← through caller a .dump [] (dump caller a)
  throw (.exit 1)

end Recordset.Collection
