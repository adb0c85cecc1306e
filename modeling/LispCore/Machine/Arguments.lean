import LispCore.Machine.Basic

/-!
# Arguments

How the arguments of a call are prepared and how they meet the parameters of a closure. Arguments
are evaluated from left to right, the first failure ends it, and only then an improper end of the
list is noticed. Deferred arguments become one promise each. Either way each argument is a level
deeper than the one before it, so a list that is longer than the depth cannot be prepared.
Parameters are matched by position: a parameter without an argument is nil and further arguments are
ignored, unless the machine is strict.

What happens to the store is an action of `EvalM`, but nothing here depends on how such actions are
run, nor on how nested calls are made: both belong to a setting `M`, which may do more than act on
the store, such as keep a record of the calls.
-/

namespace LispCore

/-- How a list of parameters met the names of a closure. -/
structure Matching where
  /-- The bindings of the names. -/
  frame : Bindings Value
  /-- How many names had no argument. -/
  missing : Nat
  /-- What is left of the list. -/
  remaining : Value

/-- Binds names to the elements of a list by position; a name that occurs again is bound anew. -/
def matchParams : List String → Value → Bindings Value → Matching
  | [], params, frame => ⟨frame, 0, params⟩
  | name :: names, .pair _ first rest, frame => matchParams names rest (frame.insert name first)
  | name :: names, params, frame =>
    let found := matchParams names params (frame.insert name .nil)
    { found with missing := found.missing + 1 }

/-- Whether every name had an argument and no argument was left over. -/
def Matching.exact (found : Matching) : Bool := found.missing == 0 && found.remaining.isNil

namespace Machine

variable {M : Type → Type} [Monad M] [MonadLiftT EvalM M]
variable (m : Machine) (depth : Nat) (self : Call → M Answer)

/-- The failure of a list of arguments that ends in `tail`. -/
def improperArguments (tail : Value) : M Answer := do
  let text ← EvalM.render depth tail
  m.note .evaluator .debug ("Improper argument list tail: " ++ text)
  pure .failure

/-- The list of the values of the arguments. The arguments behind the first are a call of their own,
one level deeper. -/
def argumentsWith (args : Value) (env : EnvId) : M Answer :=
  match args with
  | .nil => pure (.success .nil)
  | .pair _ first rest => do
    let head ← self (.evaluate first env)
    if head.ok then
      let tail ← self (.arguments rest env)
      if tail.ok then do return .success (← EvalM.act (·.newPair head.value tail.value))
      else pure .failure
    else pure .failure
  | tail => m.improperArguments depth tail

/-- The list of one promise for each argument, the last argument put off first. -/
def deferredWith (args : Value) (env : EnvId) : M Answer :=
  match args with
  | .nil => pure (.success .nil)
  | .pair _ first rest => do
    let tail ← self (.deferred rest env)
    if tail.ok then
      let id ← EvalM.act (·.newPromise first env)
      return .success (← EvalM.act (·.newPair (.promise id) tail.value))
    else pure .failure
  | tail => m.improperArguments depth tail

/-- Makes the environment of a closure's body, and says whether the arguments are acceptable. -/
def enter (c : Closure) (params : Value) : EvalM (EnvId × Bool) := do
  let found := matchParams c.params params ∅
  let env ← EvalM.act (·.newChild c.env found.frame)
  if m.strictArity && !found.exact then
    m.note .application .debug
      ("Arity mismatch for " ++ c.describe ++ ": " ++ toString found.missing ++
        " missing, surplus=" ++ (if found.remaining.isNil then "False" else "True"))
    pure (env, false)
  else pure (env, true)

end Machine

end LispCore
