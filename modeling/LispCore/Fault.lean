import LispCore.Store.Describe
import LispCore.Store.List
import LispCore.Store.Render
import LispCore.Value.List

/-!
# Faults

The errors that host operations and natives raise, each with its cause. A failure inside the
language is an answer that is not ok; a fault ends the evaluation it occurs in. The wording is in
`Fault.message` alone. A cause that quotes a value is worded from the store, and has no message when
the value has no text.
-/

namespace LispCore

/-- What a host hands over to be made into a number or a name. -/
inductive Datum where
  | truth (b : Bool)
  | whole (n : Int)
  | real (x : Flonum)
  | text (s : String)
  | absent
  | value (v : Value)

inductive Fault where
  /-- A list ends in something else than nil. -/
  | improperList (tail : Value)
  /-- A parameter of a closure is no name. -/
  | notName (param : Value)
  /-- An integer value was asked for. -/
  | notInteger (given : Datum)
  /-- A floating-point value was asked for. -/
  | notNumber (given : Datum)
  /-- The name of a symbol was asked for. -/
  | notText (given : Datum)
  /-- A whole number lies beyond the largest float. -/
  | floatRange
  /-- The parent of an outermost environment was asked for. -/
  | noParent
  /-- A native was registered too late. -/
  | registrySealed (name : String)
  /-- The configured recursion limit does not fit the host's counter. -/
  | limitRange
  /-- An integer has too many digits to be written. -/
  | digitRange
  /-- An evaluation that had to succeed failed. -/
  | evaluationFailed (expression : Value)
  /-- A native gave up for a reason of its own. -/
  | native (text : String)

def Store.describeDatum (s : Store) (depth : Nat) : Datum → Written String
  | .truth b => .ok (if b then "True" else "False")
  | .whole n => integerText n
  | .real x => .ok x.shortestText
  | .text t => .ok (quoted t)
  | .absent => .ok "None"
  | .value v => s.describe depth v

/-- The kind of a datum, as messages name it. -/
def Datum.kind : Datum → String
  | .truth _ => "bool"
  | .whole _ => "int"
  | .real _ => "float"
  | .text _ => "str"
  | .absent => "None"
  | .value v =>
    match v.tag with
    | .nil => "NilType"
    | .integer => "Integer"
    | .float => "Float"
    | .string => "String"
    | .symbol => "Symbol"
    | .closure => "Closure"
    | .native => "NativeProcedure"
    | .pair => "Pair"
    | .mapping => "Mapping"
    | .array => "Array"
    | .promise => "LazyThunk"

/-- The message about an integer that has too many digits. -/
def digitRangeText : String :=
  "Exceeds the limit (4300 digits) for integer string conversion; " ++
    "use sys.set_int_max_str_digits() to increase the limit"

/-- The text of a fault. -/
def Fault.message (s : Store) (depth : Nat) : Fault → Written String
  | .improperList tail => (s.describe depth tail).map ("Improper list tail: " ++ ·)
  | .notName param =>
    (s.describe depth param).map ("Closure parameter must be a name, got " ++ ·)
  | .notInteger given => (s.describeDatum depth given).map ("Integer requires an int, got " ++ ·)
  | .notNumber given => (s.describeDatum depth given).map ("Float requires a number, got " ++ ·)
  | .notText given => .ok ("intern() argument must be str, not " ++ given.kind)
  | .floatRange => .ok "int too large to convert to float"
  | .noParent => .ok "Cannot pop past the root environment"
  | .registrySealed name => .ok ("Cannot register '" ++ name ++ "' after start-up")
  | .limitRange => .ok "Python int too large to convert to C int"
  | .digitRange => .ok digitRangeText
  | .evaluationFailed e => (s.render depth e).map ("Evaluation failed: " ++ ·)
  | .native text => .ok text

namespace Datum

def toInteger : Datum → Except Fault Value
  | .whole n => .ok (.integer n)
  | d => .error (.notInteger d)

/-- A whole number is taken to the nearest float. -/
def toFloat : Datum → Except Fault Value
  | .real x => .ok (.float x)
  | .whole n =>
    match Binary64.ofInt? n with
    | some x => .ok (.float (.number x))
    | none => .error .floatRange
  | d => .error (.notNumber d)

def toSymbol : Datum → Except Fault Value
  | .text s => .ok (.symbol s)
  | d => .error (.notText d)

end Datum

namespace Value

/-- The elements of a proper list. -/
def listElements (v : Value) : Except Fault (List Value) :=
  v.properElements.mapError .improperList

def listLength (v : Value) : Except Fault Nat := v.listElements.map List.length

/-- Goes through a list. The elements are met in order, and behind them there is a fault if the list
does not end in nil. -/
def walk : Value → List Value × Option Fault
  | .pair _ first rest =>
    let (met, fault) := rest.walk
    (first :: met, fault)
  | .nil => ([], none)
  | tail => ([], some (.improperList tail))

/-- The names that a list of symbols gives to parameters, up to the first that is no symbol. -/
def paramNames : List Value → Except Fault (List String)
  | [] => .ok []
  | .symbol name :: others => (paramNames others).map (name :: ·)
  | v :: _ => .error (.notName v)

end Value

end LispCore
