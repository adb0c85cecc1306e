import LispCore.Script

/-!
# The evaluating machine

What stays fixed while an evaluation runs, and the ways in which it can end. Evaluation acts on the
store, and what it did before it was stopped stays done.

Two bounds make every evaluation end. The depth bounds how many evaluations are open inside one
another; exhausting it is something programs can cause and hosts can see. The links bound how many
promises one forcing follows from result to result; a forcing that never ends exhausts any number
of links and has no answer at all.
-/

namespace LispCore

structure Machine where
  library : Library
  /-- Whether a closure refuses a number of arguments that is not its number of parameters. -/
  strictArity : Bool
  /-- The level of the journal. -/
  level : Int
  /-- How many promises one forcing follows. -/
  links : Nat

/-- Why an evaluation ended without an answer. -/
inductive Stop where
  /-- A fault, with the message it had when it was raised. -/
  | raised (fault : Fault) (message : String)
  | tooDeep
  | unfinished

/-- How an evaluation ends that needs a text that cannot be written. -/
def Unwritable.stop : Unwritable → Stop
  | .tooDeep => .tooDeep
  | .tooManyDigits => .raised .digitRange digitRangeText

theorem Unwritable.stop_ne_unfinished (why : Unwritable) : why.stop ≠ .unfinished := by
  cases why <;> exact nofun

abbrev EvalM := EStateM Stop Store

/-- What one level of evaluation asks of the next deeper one. -/
inductive Call where
  /-- Evaluate an expression. -/
  | evaluate (expression : Value) (env : EnvId)
  /-- Evaluate the arguments of a list. -/
  | arguments (args : Value) (env : EnvId)
  /-- Put off the arguments of a list. -/
  | deferred (args : Value) (env : EnvId)
  /-- Give the answer of a promise. -/
  | force (id : PromiseId)
  /-- Apply a closure to its parameters. -/
  | closure (c : Closure) (params : Value)
  /-- Apply a native to its parameters. -/
  | native (p : Native) (params : Value) (env : EnvId)

/-- Prepare the arguments of a closure. -/
def Call.parameters (isLazy : Bool) (args : Value) (env : EnvId) : Call :=
  if isLazy then .deferred args env else .arguments args env

namespace EvalM

variable {α β : Type}

theorem bind_ok {x : EvalM α} {f : α → EvalM β} {s t : Store} {a : α} (h : x s = .ok a t) :
    (x >>= f) s = f a t := by
  change EStateM.bind x f s = f a t
  simp only [EStateM.bind, h]

theorem bind_error {x : EvalM α} {f : α → EvalM β} {s t : Store} {e : Stop}
    (h : x s = .error e t) : (x >>= f) s = .error e t := by
  change EStateM.bind x f s = .error e t
  simp only [EStateM.bind, h]

/-- Changes the store by an operation that also gives a result. -/
def act (f : Store → α × Store) : EvalM α := fun s =>
  let (a, s) := f s
  .ok a s

/-- Looks something up in the store. -/
def read (f : Store → α) : EvalM α := act fun s => (f s, s)

/-- Changes the store. -/
def change (f : Store → Store) : EvalM Unit := act fun s => ((), f s)

/-- Ends the evaluation without an answer. -/
def stop (why : Stop) : EvalM α := fun s => .error why s

/-- The text of a value, if it can be written within the depth. -/
def render (depth : Nat) (v : Value) : EvalM String := fun s =>
  match s.render depth v with
  | .ok text => .ok text s
  | .error why => .error why.stop s

/-- Raises a fault. Its message is written first, and if that cannot be done, this is what ends the
evaluation. -/
def raise (depth : Nat) (fault : Fault) : EvalM α := fun s =>
  match fault.message s depth with
  | .ok text => .error (.raised fault text) s
  | .error why => .error why.stop s

end EvalM

def Machine.note (m : Machine) (source : Source) (severity : Severity) (text : String) :
    EvalM Unit :=
  .change (·.note m.level ⟨source, severity, text⟩)

end LispCore
