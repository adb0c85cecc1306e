import LispCore.Bindings
import LispCore.Fault

/-!
# Registries

A registry holds natives by name until it is sealed, and then for good. A native registered under a
name that is taken replaces the one before and keeps its place.
-/

namespace LispCore

structure Registry where
  table : Bindings Native := ∅
  isSealed : Bool := false

namespace Registry

/-- Adds a native under its name. Only a registry that is not sealed is given new natives. -/
def register (r : Registry) (p : Native) : Registry :=
  { r with table := r.table.insert p.name p }

def sealed (r : Registry) : Registry := { r with isSealed := true }

def find? (r : Registry) (name : String) : Option Native := r.table.find? name

/-- The names in order of their code points. -/
def names (r : Registry) : List String := r.table.names.mergeSort (· ≤ ·)

/-- Binds every native in the innermost frame of an environment. -/
def bindAll (r : Registry) (env : EnvId) (s : Store) : Store :=
  r.table.entries.foldl (fun s e => s.bind env e.1 (.native e.2)) s

end Registry

end LispCore
