/-!
# Journal records

What the parts of the interpreter report while they work. A record is kept when its severity
reaches the threshold in force; a threshold of zero means that none was set, and then warnings and
errors are kept.
-/

namespace LispCore

inductive Severity where
  | debug | info | warning | error
  deriving DecidableEq

namespace Severity

def rank : Severity → Int
  | .debug => 10
  | .info => 20
  | .warning => 30
  | .error => 40

def name : Severity → String
  | .debug => "DEBUG"
  | .info => "INFO"
  | .warning => "WARNING"
  | .error => "ERROR"

end Severity

/-- The part of the interpreter that a record comes from. -/
inductive Source where
  | evaluator | application | registry | interpreter
  deriving DecidableEq

def Source.name : Source → String
  | .evaluator => "xl.evaluation.evaluator"
  | .application => "xl.evaluation.apply"
  | .registry => "xl.builtin.registry"
  | .interpreter => "xl.interpreter"

structure Record where
  source : Source
  severity : Severity
  text : String
  deriving DecidableEq

/-- The least rank that is kept at a given level. -/
def effectiveLevel (level : Int) : Int := if level = 0 then Severity.warning.rank else level

def Record.kept (level : Int) (r : Record) : Bool := effectiveLevel level ≤ r.severity.rank

end LispCore
