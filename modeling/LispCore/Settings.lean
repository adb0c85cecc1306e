import LispCore.Text.Blank
import LispCore.Text.Case
import LispCore.Text.Digit
import LispCore.Text.Integer

/-!
# Settings

The settings come as texts from outside, and any of them may be absent. Surrounding white space
does not matter. A text that is not understood leaves the default.
-/

namespace LispCore

/-- A flag is on when its text is one of four words, in any case; a blank text is no text. -/
def readFlag (raw : Option String) (default : Bool) : Bool :=
  match raw with
  | none => default
  | some text =>
    let word := stripBlank text.toList
    if word.isEmpty then default
    else ["1", "true", "yes", "on"].contains (String.ofList (word.map smallForm))

/-- The values of a run of digits, in which single underscores may stand between digits. -/
def readDigits? : List Char → Option (List Nat)
  | [] => none
  | c :: rest =>
    (digitValue? c).bind fun d =>
      match rest with
      | [] => some [d]
      | '_' :: rest => (readDigits? rest).map (d :: ·)
      | rest => (readDigits? rest).map (d :: ·)

def readNatural? (cs : List Char) : Option Nat :=
  (readDigits? cs).bind fun ds =>
    if ds.length ≤ digitLimit then some (ds.foldl (fun n d => 10 * n + d) 0) else none

/-- A whole number with an optional sign. -/
def readInteger? (text : String) : Option Int :=
  match stripBlank text.toList with
  | '-' :: cs => (readNatural? cs).map fun n => -(n : Int)
  | '+' :: cs => (readNatural? cs).map Int.ofNat
  | cs => (readNatural? cs).map Int.ofNat

/-- The positive number that a text denotes. -/
def readPositive (raw : Option String) (default : Int) : Int :=
  match raw.bind readInteger? with
  | some n => if 0 < n then n else default
  | none => default

/-- The level that a name stands for, in any case. -/
def readLevel? (raw : Option String) : Option Int :=
  raw.bind fun text =>
    match String.ofList ((stripBlank text.toList).flatMap capitalForm) with
    | "CRITICAL" => some 50
    | "FATAL" => some 50
    | "ERROR" => some 40
    | "WARNING" => some 30
    | "WARN" => some 30
    | "INFO" => some 20
    | "DEBUG" => some 10
    | "NOTSET" => some 0
    | _ => none

/-- The texts of the settings. -/
structure Settings where
  strictArity : Option String := none
  recursionLimit : Option String := none
  logLevel : Option String := none

namespace Settings

/-- Sets or removes the text of a variable. Other variables are of no concern. -/
def set (s : Settings) (name : String) (raw : Option String) : Settings :=
  match name with
  | "XL_STRICT_ARITY" => { s with strictArity := raw }
  | "XL_RECURSION_LIMIT" => { s with recursionLimit := raw }
  | "XL_LOG_LEVEL" => { s with logLevel := raw }
  | _ => s

/-- Whether closures refuse a wrong number of arguments. -/
def strict (s : Settings) : Bool := readFlag s.strictArity false

/-- How deep evaluations may nest. -/
def limit (s : Settings) : Nat := (readPositive s.recursionLimit 10000).toNat

/-- The level for the journal, if one is asked for. -/
def level? (s : Settings) : Option Int := readLevel? s.logLevel

end Settings

end LispCore
