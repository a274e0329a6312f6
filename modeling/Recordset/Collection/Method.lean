import Recordset.Error
import Recordset.Value
set_option autoImplicit false

/-!
# The methods of a collection and their arguments

Each method has a name and a signature: the arguments it takes by position or by name, with their
defaults, and whether any number may follow.  `Signature.bind` matches the arguments of a call with
a signature, and refuses a call that leaves out a required argument, gives one twice or gives one
too many.
-/

namespace Recordset

/-- A named argument of a method, and its value when the caller leaves it out. -/
structure Parameter where
  name : String
  default : Option Value := none

/-- The arguments that a method takes. -/
structure Signature where
  params : List Parameter := []
  /-- whether any number of arguments may follow -/
  rest : Bool := false

/-- The arguments of a call. -/
structure Arguments where
  positional : List Value := []
  named : List (String × Value) := []

namespace Signature

/-- A parameter that has to be given. -/
def required (name : String) : Parameter := ⟨name, none⟩

/-- A parameter that may be left out. -/
def optional (name : String) (default : Value) : Parameter := ⟨name, some default⟩

/-- The values of the parameters, in order: by position while there are some, then by name, then
the defaults. -/
def fill : List Parameter → Arguments → Except Error (List Value)
  | [], _ => .ok []
  | p :: ps, ⟨v :: vs, named⟩ =>
    if named.any (·.1 == p.name) then .error (.fault .type)
    else (fill ps ⟨vs, named⟩).map (v :: ·)
  | p :: ps, ⟨[], named⟩ =>
    match named.find? (·.1 == p.name), p.default with
    | some (_, v), _ => (fill ps ⟨[], named⟩).map (v :: ·)
    | none, some v => (fill ps ⟨[], named⟩).map (v :: ·)
    | none, none => .error (.fault .type)

/-- Matches the arguments of a call: the values of the parameters, then those that follow. -/
def bind (s : Signature) (a : Arguments) : Except Error (List Value) :=
  if a.named.any fun (name, _) => !s.params.any (·.name == name) then .error (.fault .type)
  else if !s.rest ∧ s.params.length < a.positional.length then .error (.fault .type)
  else do
    let values ← fill s.params a
    return values ++ a.positional.drop s.params.length

end Signature

/-- The methods of a collection. -/
inductive Method where
  | all | avg | chunk | clone | collect | concat | count | countBy | delete | dump | dumpExit
  | each | every | extend | filter | find | first | forget | groupBy | isEmpty | isNotEmpty
  | join | keyBy | last | map | max | min | except | paginate | partition | pop | push | random
  | reduce | reverse | shift | shuffle | slice | sort | sortBy | sortByDesc | splice | stringify
  | sum | toJson | toList | union | unique | unshift | update | select | reject
  deriving DecidableEq, Repr

namespace Method

/-- The name of a method. -/
def name : Method → String
  | all => "all"
  | avg => "avg"
  | chunk => "chunk"
  | clone => "clone"
  | collect => "collect"
  | concat => "concat"
  | count => "count"
  | countBy => "count_by"
  | delete => "delete"
  | dump => "dump"
  | dumpExit => "dd"
  | each => "each"
  | every => "every"
  | extend => "macro"
  | filter => "filter"
  | find => "find"
  | first => "first"
  | forget => "forget"
  | groupBy => "group_by"
  | isEmpty => "is_empty"
  | isNotEmpty => "is_not_empty"
  | join => "join"
  | keyBy => "key_by"
  | last => "last"
  | map => "map"
  | max => "max"
  | min => "min"
  | except => "not_"
  | paginate => "paginate"
  | partition => "partition"
  | pop => "pop"
  | push => "push"
  | random => "random"
  | reduce => "reduce"
  | reverse => "reverse"
  | shift => "shift"
  | shuffle => "shuffle"
  | slice => "slice"
  | sort => "sort"
  | sortBy => "sort_by"
  | sortByDesc => "sort_by_desc"
  | splice => "splice"
  | stringify => "stringify"
  | sum => "sum"
  | toJson => "to_json"
  | toList => "to_list"
  | union => "union"
  | unique => "unique"
  | unshift => "unshift"
  | update => "update"
  | select => "where"
  | reject => "where_not"

/-- Every method. -/
def methods : List Method :=
  [all, avg, chunk, clone, collect, concat, count, countBy, delete, dump, dumpExit, each, every,
    extend, filter, find, first, forget, groupBy, isEmpty, isNotEmpty, join, keyBy, last, map, max,
    min, except, paginate, partition, pop, push, random, reduce, reverse, shift, shuffle, slice,
    sort, sortBy, sortByDesc, splice, stringify, sum, toJson, toList, union, unique, unshift,
    update, select, reject]

/-- The method of a name. -/
def ofName? (s : String) : Option Method := methods.find? (·.name == s)

open Signature in
/-- The arguments that a method takes. -/
def signature : Method → Signature
  | chunk => { params := [required "size"] }
  | collect => { params := [optional "items" .null] }
  | filter | except | find | partition | delete => { params := [required "spec"] }
  | first | last | count => { params := [optional "spec" .null] }
  | map | each => { params := [required "fn"] }
  | groupBy | keyBy => { params := [required "key_or_fn"] }
  | unique | countBy | sum | avg | min | max | sortBy | sortByDesc =>
    { params := [optional "key_or_fn" .null] }
  | sort => { params := [optional "key_or_cmp" .null, optional "direction" .null] }
  | slice => { params := [optional "start" .null, optional "end" .null] }
  | union => { params := [required "other"] }
  | paginate => { params := [optional "page" (.int 1), optional "per_page" .null] }
  | random => { params := [optional "count" .null] }
  | reduce => { params := [required "fn", optional "initial" .null] }
  | splice => { params := [required "start", optional "delete_count" .null], rest := true }
  | stringify => { params := [optional "default" .null, optional "indent" .null] }
  | join =>
    { params := [optional "key" .null, optional "separator" .null,
        optional "last_separator" .null] }
  | extend => { params := [required "name", required "fn"] }
  | select | reject | every | concat | update | forget | push | unshift => { rest := true }
  | all | clone | dump | dumpExit | isEmpty | isNotEmpty | pop | reverse | shift | shuffle
  | toJson | toList => {}

end Method

/-- What a collection shows of itself besides its methods. -/
inductive Attribute where
  | length
  | extensions
  | policy
  | sharedExtensions
  | validators
  deriving DecidableEq, Repr

namespace Attribute

/-- The name of an attribute. -/
def name : Attribute → String
  | length => "length"
  | extensions => "macros"
  | policy => "policy"
  | sharedExtensions => "static_macros"
  | validators => "validators"

/-- Every attribute. -/
def all : List Attribute := [length, extensions, policy, sharedExtensions, validators]

/-- The attribute of a name. -/
def ofName? (s : String) : Option Attribute := all.find? (·.name == s)

end Attribute

/-- The names that no extension can take: those of the methods and of the attributes. -/
def builtinNames : List String := Method.methods.map Method.name ++ Attribute.all.map Attribute.name

/-- A call of a method, its arguments bound. -/
structure Call where
  method : Method
  values : List Value

/-- Matches the arguments of a call with the signature of the method. -/
def Method.call (m : Method) (a : Arguments) : Except Error Call :=
  (m.signature.bind a).map fun values => ⟨m, values⟩

end Recordset
