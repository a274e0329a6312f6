import Recordset.Value.Attribute
set_option autoImplicit false

/-!
# Paths

A path leads from an item to a value inside of it.  Written with dots it has one segment between
each two of them; the empty path, null and the path that names the item itself have none; any value
that is not a text is a path of one segment.  A segment is a key of a mapping, a position in a
sequence, and an attribute of anything else.  The value at a path that can not be followed is
missing, which is not the same as a stored null.  An attribute or a position that fails to be looked
up, for another reason than that it is not there, fails.

`Path.without` copies a mapping without the field at a path, and with it every mapping on the way.
-/

namespace Recordset.Path

/-- The path that names the item itself. -/
def itself : String := "$value"

/-- The segments of a text between dots. -/
def dotted (cs : List Char) : List (List Char) := cs.splitOn '.'

/-- The segments of a written path. -/
def segments (path : String) : List Value :=
  if path = "" ∨ path = itself then []
  else (dotted path.toList).map fun cs => .str (String.ofList cs)

/-- The segments of a path.  Comparing a hostile value with a written path fails. -/
def split (path : Value) : Look (List Value) := fun s =>
  match path with
  | .null => .ok []
  | .str t => .ok (segments t)
  | _ =>
    match s.view path with
    | some .hostile => .error (.fault .value)
    | _ => .ok [path]

/-- The position that a segment is in a list: a whole number, written or not, or the whole part of
a number.  Only an infinite number fails; whatever else is no position. -/
def position (segment : Value) : Except Error (Option Int) :=
  match segment with
  | .str t => .ok (Text.readInteger t).toOption
  | .bytes bs => .ok (Text.readIntegerBytes bs).toOption
  | .float x =>
    match Number.truncate x with
    | .ok n => .ok (some n)
    | .error .infinite => .error (.fault .overflow)
    | .error .notANumber => .ok none
  | _ => .ok segment.index?

/-- The value one segment away, or the marker for an absent one. -/
def step (current segment : Value) : Action Value := do
  let s := (← get).store
  match s.entries? current with
  | some es =>
    if s.isKey segment then return (Entries.find? s es segment).getD .missing
    else Action.fault .type
  | none =>
    match s.sequence? current, s.unreadable? current with
    | some xs, _ => do
      match ← Action.ofExcept (position segment) with
      | some i => return ((Slice.place? xs.length i).bind (xs[·]?)).getD .missing
      | none => return .missing
    | none, some kind => do
      match ← Action.ofExcept (position segment) with
      | some _ => if kind.failure.isPosition then return .missing else throw kind.failure
      | none => return .missing
    | none, none =>
      if current.isAbsent then return .missing
      else
        match segment with
        | .str name => return (← Action.attribute? current name).getD .missing
        | _ => return .missing

/-- The value at the end of a list of segments, or the marker for an absent one. -/
def follow : List Value → Value → Action Value
  | [], v => pure v
  | segment :: rest, v => do
    match ← step v segment with
    | .missing => return .missing
    | next => follow rest next

/-- The value at a path, or the default where there is none. -/
def resolve (item path default : Value) : Action Value := do
  match ← Action.look (split path) with
  | [] => return item
  | segments => do
    match ← follow segments item with
    | .missing => return default
    | v => return v

/-- The value at a path, or the marker for an absent one. -/
def value (item path : Value) : Action Value := resolve item path .missing

/-- Whether there is a value at a path. -/
def has (item path : Value) : Action Bool := return !(← value item path).isMissing

/-- Whether the rest of a path names the value that it starts from. -/
def isWhole : List Value → Bool
  | [.str t] => t == "" || t == itself
  | _ => false

/-- A copy of a mapping without the field at the end of a list of segments; the value itself where
there is no such field. -/
def withoutAt : List Value → Value → Action Value
  | [], item => pure item
  | head :: rest, item => do
    let s := (← get).store
    match s.entries? item with
    | none => return item
    | some es =>
      if !s.isKey head then Action.fault .type
      else
        match Entries.find? s es head with
        | none => return item
        | some inner =>
          if rest.isEmpty then Action.make (.dict (Entries.erase s es head))
          else
            let changed ← if isWhole rest then pure inner else withoutAt rest inner
            let s := (← get).store
            Action.make (.dict (Entries.insert s es head changed))

/-- A copy of a mapping without the field at a path. -/
def without (item path : Value) : Action Value := do
  withoutAt (← Action.look (split path)) item

end Recordset.Path
