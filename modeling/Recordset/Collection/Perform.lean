import Recordset.Collection.Change
import Recordset.Collection.Construct
import Recordset.Collection.Order
import Recordset.Collection.Present
import Recordset.Collection.Summary
set_option autoImplicit false

/-!
# Performing a call

`Collection.perform` carries out a call whose arguments are bound: there is a value for each
parameter of the method, and after them those that follow.
-/

namespace Recordset.Collection

/-- Registers an extension for a collection and those derived from it. -/
def extend (a : Address) (name f : Value) : Action Value := do
  Registry.register (← read a).registry name f
  return .ref a

/-- Carries out a call on a collection. -/
def perform (caller : Caller) (a : Address) (c : Call) : Action Value :=
  match c.method, c.values with
  | .all, _ => all caller a
  | .avg, [key] => avg caller a key
  | .chunk, [size] => chunk a size
  | .clone, _ => clone caller a
  | .collect, [xs] => collect a xs
  | .concat, others => concat a others
  | .count, [spec] => count caller a spec
  | .countBy, [key] => countBy caller a key
  | .delete, [spec] => delete caller a spec
  | .dump, _ => dump caller a
  | .dumpExit, _ => dumpExit caller a
  | .each, [f] => each caller a f
  | .every, args => every caller a args
  | .extend, [name, f] => extend a name f
  | .filter, [spec] => filter caller a spec
  | .find, [spec] => find caller a spec
  | .first, [spec] => first caller a spec
  | .forget, keys => forget a keys
  | .groupBy, [key] => groupBy caller a key
  | .isEmpty, _ => do return .bool (← itemsOf a).isEmpty
  | .isNotEmpty, _ => do return .bool !(← itemsOf a).isEmpty
  | .join, [key, separator, lastSeparator] => join caller a key separator lastSeparator
  | .keyBy, [key] => keyBy caller a key
  | .last, [spec] => last caller a spec
  | .map, [f] => map caller a f
  | .max, [key] => extreme caller .greater a key
  | .min, [key] => extreme caller .less a key
  | .except, [spec] => except caller a spec
  | .paginate, [page, perPage] => paginate a page perPage
  | .partition, [spec] => partition caller a spec
  | .pop, _ => pop a
  | .push, xs => push a xs
  | .random, [count] => random a count
  | .reduce, [f, initial] => reduce caller a f initial
  | .reverse, _ => reverse a
  | .shift, _ => shift a
  | .shuffle, _ => shuffle a
  | .slice, [start, stop] => slice a start stop
  | .sort, [key, direction] => sort caller a key direction
  | .sortBy, [key] => sorted caller a key .asc
  | .sortByDesc, [key] => sorted caller a key .desc
  | .splice, start :: count :: new => splice a start count new
  | .stringify, [default, indent] => stringify caller a default indent
  | .sum, [key] => sum caller a key
  | .toJson, _ => toJson a
  | .toList, _ => toList a
  | .union, [other] => union a other
  | .unique, [key] => unique caller a key
  | .unshift, xs => unshift a xs
  | .update, args => update caller a args
  | .select, args => select caller a args
  | .reject, args => reject caller a args
  | _, _ => Action.fault .type

/-- Binds the arguments of a call and carries it out. -/
def invoke (caller : Caller) (a : Address) (m : Method) (args : Arguments) : Action Value := do
  perform caller a (← Action.ofExcept (m.call args))

end Recordset.Collection
