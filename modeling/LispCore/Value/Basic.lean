import LispCore.Number.Binary64

/-!
# Values

The data of the language. Numbers, texts, symbols, pairs and arrays are immutable and compared by
their contents. Mappings, closures, natives and promises have an identity: a mapping and a promise
are named by their place in the store, which holds their changing contents, while a closure and a
native never change, so they carry their contents and are told apart by the mark of their making.
Closures refer to the environment they were made in by its place in the store.

Pairs and arrays have a mark as well. It takes no part in comparing them, and serves to recognise a
pair or an array that is met again inside itself, by way of a mapping or a promise.
-/

namespace LispCore

/-- The place of a mapping in the store. -/
structure MappingId where
  index : Nat
  deriving DecidableEq

/-- The place of an environment in the store. -/
structure EnvId where
  index : Nat
  deriving DecidableEq

/-- The place of a promise in the store. -/
structure PromiseId where
  index : Nat
  deriving DecidableEq

/-- The identity of an object that is not in the store, given out in the order of making. -/
structure Mark where
  index : Nat
  deriving DecidableEq

/-- A floating-point number. A number that is not one keeps the mark of its making, since it equals
itself and no other. -/
inductive Flonum where
  | number (x : Binary64)
  | nan (mark : Mark)
  deriving DecidableEq

/-- A procedure implemented outside the language: the key of its routine, the name it answers to and
whether it takes its arguments unevaluated. -/
structure Native where
  mark : Mark
  routine : String
  name : String
  isLazy : Bool
  deriving DecidableEq

inductive Value where
  | nil
  | integer (n : Int)
  | float (x : Flonum)
  | string (text : String)
  | symbol (name : String)
  | pair (mark : Mark) (first rest : Value)
  | mapping (id : MappingId)
  | array (mark : Mark) (items : List Value)
  | closure (mark : Mark) (params : List String) (body : Value) (env : EnvId) (isLazy : Bool)
  | native (proc : Native)
  | promise (id : PromiseId)

instance : Inhabited Value := ⟨.nil⟩

def Value.isNil : Value → Bool
  | .nil => true
  | _ => false

/-- A procedure of the language: parameter names, a body, the environment it was made in and whether
its arguments are deferred. -/
structure Closure where
  mark : Mark
  params : List String
  body : Value
  env : EnvId
  isLazy : Bool

def Closure.toValue (c : Closure) : Value := .closure c.mark c.params c.body c.env c.isLazy

/-- The kinds of value. -/
inductive Tag where
  | nil | integer | float | string | symbol | closure | native | pair | mapping | array | promise
  deriving DecidableEq

namespace Tag

def number : Tag → Nat
  | .nil => 0
  | .integer => 1
  | .float => 2
  | .string => 3
  | .symbol => 4
  | .closure => 5
  | .native => 6
  | .pair => 7
  | .mapping => 8
  | .array => 9
  | .promise => 10

def name : Tag → String
  | .nil => "NIL"
  | .integer => "INTEGER"
  | .float => "FLOAT"
  | .string => "STRING"
  | .symbol => "SYMBOL"
  | .closure => "CLOSURE"
  | .native => "NATIVE"
  | .pair => "PAIR"
  | .mapping => "MAPPING"
  | .array => "ARRAY"
  | .promise => "LAZY"

end Tag

def Value.tag : Value → Tag
  | .nil => .nil
  | .integer _ => .integer
  | .float _ => .float
  | .string _ => .string
  | .symbol _ => .symbol
  | .pair .. => .pair
  | .mapping _ => .mapping
  | .array .. => .array
  | .closure .. => .closure
  | .native _ => .native
  | .promise _ => .promise

end LispCore
