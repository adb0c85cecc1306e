import LispCore.Bootstrap
import LispCore.Machine.Evaluate
import LispCore.Registry
import LispCore.Settings

/-!
# The host

What evaluations, registries and interpreters share: the store, the settings, the level of the
journal, the recursion limit, the registries made so far and the one that all interpreters share
unless told otherwise.
-/

namespace LispCore

/-- The place of a registry in the host. -/
structure RegistryId where
  index : Nat
  deriving DecidableEq

structure Host where
  library : Library
  store : Store := .empty
  settings : Settings := {}
  /-- The level of the journal. -/
  level : Int := 0
  /-- How deep evaluations may nest. -/
  recursionLimit : Nat
  /-- How many promises one forcing follows. -/
  links : Nat
  registries : Array Registry := #[]
  /-- The registry of interpreters that name none, once there is one. -/
  shared : Option RegistryId := none

abbrev HostM := EStateM Stop Host

namespace Host

def registry (h : Host) (id : RegistryId) : Registry := h.registries.getD id.index {}

def setRegistry (h : Host) (id : RegistryId) (r : Registry) : Host :=
  { h with registries := h.registries.setIfInBounds id.index r }

/-- The machine that evaluates under the present settings. -/
def machine (h : Host) : Machine where
  library := Bootstrap.extend h.library
  strictArity := h.settings.strict
  level := h.level
  links := h.links

/-- The largest recursion limit that can be set. -/
def largestLimit : Nat := 2147483647

end Host

namespace HostM

variable {α : Type}

/-- Changes the store by an operation that also gives a result. -/
def act (f : Store → α × Store) : HostM α := fun h =>
  let (a, s) := f h.store
  .ok a { h with store := s }

/-- Runs an evaluation on the store, as deep as the recursion limit allows. -/
def eval (f : Machine → (depth : Nat) → EvalM α) : HostM α := fun h =>
  match f h.machine h.recursionLimit h.store with
  | .ok a s => .ok a { h with store := s }
  | .error stop s => .error stop { h with store := s }

def raise (fault : Fault) : HostM α := eval fun _ depth => EvalM.raise depth fault

def ofExcept : Except Fault α → HostM α
  | .ok a => pure a
  | .error fault => raise fault

def note (source : Source) (severity : Severity) (text : String) : HostM Unit :=
  modify fun h => { h with store := h.store.note h.level ⟨source, severity, text⟩ }

/-- The parent of an environment, which an outermost one does not have. -/
def parent (env : EnvId) : HostM EnvId := do
  match (← get).store.parent? env with
  | some parent => pure parent
  | none => raise .noParent

/-! ## Registries -/

def newRegistry : HostM RegistryId := fun h =>
  .ok ⟨h.registries.size⟩ { h with registries := h.registries.push {} }

/-- Notes that a name is about to get a new native, if it has one. -/
def noteReplaced (r : Registry) (name : String) : HostM Unit :=
  if r.table.contains name then
    note .registry .debug ("Replacing native procedure '" ++ name ++ "'")
  else pure ()

/-- Registers a native for a routine. -/
def register (id : RegistryId) (name routine : String) (isLazy : Bool) : HostM Native := do
  let r := (← get).registry id
  if r.isSealed then raise (.registrySealed name)
  else do
    noteReplaced r name
    let mark ← act Store.newMark
    let p : Native := ⟨mark, routine, name, isLazy⟩
    modify (·.setRegistry id (r.register p))
    pure p

/-- Registers the native that gives programs access to the evaluator. -/
def registerEval (id : RegistryId) : HostM Unit := do
  let _ ← register id Bootstrap.key Bootstrap.key true

/-- The shared registry, made on first use. -/
def sharedRegistry : HostM RegistryId := do
  match (← get).shared with
  | some id => pure id
  | none =>
    let id ← newRegistry
    modify fun h => { h with shared := some id }
    registerEval id
    pure id

/-- Notes that a registry is about to be sealed, if it is not. -/
def noteSealed (r : Registry) : HostM Unit :=
  if r.isSealed then pure ()
  else
    note .registry .info ("Native registry sealed with " ++ toString r.table.size ++ " procedures")

def sealRegistry (id : RegistryId) : HostM Unit := do
  let r := (← get).registry id
  noteSealed r
  modify (·.setRegistry id r.sealed)

def bindAll (id : RegistryId) (env : EnvId) : HostM Unit :=
  modify fun h => { h with store := (h.registry id).bindAll env h.store }

/-- Seals a registry and makes an outermost environment that holds its natives. -/
def populatedRoot (id : RegistryId) : HostM EnvId := do
  sealRegistry id
  let env ← act Store.newRoot
  bindAll id env
  pure env

end HostM

end LispCore
