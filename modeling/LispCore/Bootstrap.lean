import LispCore.Script

/-!
# The bootstrap native

`eval` gives programs access to the evaluator. Every host has its routine, whatever else its library
holds.
-/

namespace LispCore.Bootstrap

/-- The key of the routine, and the name it is registered under. -/
def key : String := "eval"

/-- Evaluates the first argument in the environment of the caller and leaves the others alone. -/
def eval : Routine := fun params env =>
  match params with
  | .pair _ expression _ => Script.request (.evaluate expression env)
  | _ => pure .failure

/-- A library with the routine added to it. -/
def extend (library : Library) : Library := fun k => if k = key then eval else library k

end LispCore.Bootstrap
