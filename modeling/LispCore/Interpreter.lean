import LispCore.Host

/-!
# Interpreters

An interpreter evaluates expressions in an outermost environment of its own, which lives as long as
it does, so definitions persist. It forces what it answers, reports every failure in the journal, and
answers an evaluation that went too deep by a failure.
-/

namespace LispCore

structure Interpreter where
  registry : RegistryId
  env : EnvId

namespace Machine

/-- Evaluates an expression and forces its value. -/
def evaluateForced (m : Machine) (depth : Nat) (expression : Value) (env : EnvId) :
    EvalM Answer := do
  let a ← m.evaluate depth expression env
  if a.ok then m.force depth a.value else pure a

/-- Reports a failed evaluation and passes its answer on. -/
def reportFailed (m : Machine) (depth : Nat) (expression : Value) (a : Answer) :
    EvalM Answer := do
  let text ← EvalM.render depth expression
  m.note .interpreter .warning ("Evaluation failed: " ++ text)
  pure a

/-- Reports an evaluation that went too deep, which counts as a failure. -/
def reportTooDeep (m : Machine) (depth : Nat) (expression : Value) : EvalM Answer := do
  let text ← EvalM.render depth expression
  m.note .interpreter .error ("Recursion limit exceeded evaluating " ++ text)
  pure .failure

/-- Evaluates for an interpreter. -/
def interpret (m : Machine) (depth : Nat) (expression : Value) (env : EnvId) : EvalM Answer :=
  fun s =>
    match m.evaluateForced depth expression env s with
    | .ok a s => if a.ok then .ok a s else m.reportFailed depth expression a s
    | .error .tooDeep s => m.reportTooDeep depth expression s
    | .error stop s => .error stop s

end Machine

namespace Interpreter

/-- Sets the level of the journal to the configured one, if there is one. -/
def setLevel : HostM Unit :=
  modify fun h => { h with level := h.settings.level?.getD h.level }

/-- Raises the recursion limit to the configured one; it is never lowered. -/
def raiseLimit : HostM Unit := do
  let h ← get
  let limit := h.settings.limit
  if limit ≤ h.recursionLimit then pure ()
  else if limit ≤ Host.largestLimit then set { h with recursionLimit := limit }
  else HostM.raise .limitRange

/-- The given registry, or the shared one. -/
def chooseRegistry : Option RegistryId → HostM RegistryId
  | some id => pure id
  | none => HostM.sharedRegistry

/-- Makes an interpreter on the given registry, or on the shared one. -/
def new (registry : Option RegistryId) : HostM Interpreter := do
  setLevel
  raiseLimit
  let id ← chooseRegistry registry
  let env ← HostM.populatedRoot id
  pure ⟨id, env⟩

/-- Binds a name in the interpreter's environment. -/
def define (i : Interpreter) (name : String) (v : Value) : HostM Unit :=
  HostM.act fun s => ((), s.bind i.env name v)

def evaluate (i : Interpreter) (expression : Value) : HostM Answer :=
  HostM.eval fun m depth => m.interpret depth expression i.env

/-- Like `evaluate`, but a failure is a fault. -/
def run (i : Interpreter) (expression : Value) : HostM Value := do
  let a ← i.evaluate expression
  if a.ok then pure a.value else HostM.raise (.evaluationFailed expression)

end Interpreter

end LispCore
