import LispCore.Bindings
import LispCore.Journal
import LispCore.Value.Basic

/-!
# The store

Everything that changes while programs run: the contents of mappings, the environments, the promises
with what they have memoised, the count of marks given out, the records kept in the journal and the
values that natives made visible outside.

An environment is a mapping of its own, its frame, and a link to its parent, which is older. A lookup
visits the frames along these links, and a binding is written to the first frame only, so inner
scopes shadow outer ones and never overwrite them.
-/

namespace LispCore

/-- The name of a variable as a host gives it. -/
inductive VarName where
  | text (key : String)
  | symbol (key : String)
  deriving DecidableEq

/-- What frames know a variable by. -/
def VarName.key : VarName → String
  | .text key | .symbol key => key

/-- What an evaluation answers: a value, and whether it succeeded. -/
structure Answer where
  value : Value
  ok : Bool

namespace Answer

def success (v : Value) : Answer := ⟨v, true⟩

/-- The answer of every failure that the evaluator itself detects. -/
def failure : Answer := ⟨.nil, false⟩

end Answer

/-- An expression put off, with the environment to evaluate it in. `memo` holds its answer, failures
included, once it has been evaluated. -/
structure Promise where
  expression : Value
  env : EnvId
  memo : Option Answer

namespace Promise

def forced (p : Promise) : Bool := p.memo.isSome

def result (p : Promise) : Value := (p.memo.getD .failure).value

def ok (p : Promise) : Bool := (p.memo.getD .failure).ok

/-- What stands for the promise in debugging text. -/
def shown (p : Promise) : Value := if p.forced then p.result else p.expression

end Promise

structure Environment where
  frame : MappingId
  parent : Option EnvId

structure Store where
  mappings : Array (Bindings Value) := #[]
  environments : Array Environment := #[]
  promises : Array Promise := #[]
  marks : Nat := 0
  records : Array Record := #[]
  effects : Array Value := #[]

namespace Store

def empty : Store := {}

/-- The contents of a mapping. A place outside the store holds nothing. -/
def mapping (s : Store) (id : MappingId) : Bindings Value := s.mappings.getD id.index ∅

/-- A promise of the store. A place outside the store reads as a promise that has failed. -/
def promise (s : Store) (id : PromiseId) : Promise :=
  s.promises.getD id.index ⟨.nil, ⟨0⟩, some .failure⟩

def environment? (s : Store) (env : EnvId) : Option Environment := s.environments[env.index]?

def parent? (s : Store) (env : EnvId) : Option EnvId := (s.environment? env).bind (·.parent)

/-- An environment and those around it, at most `steps` of them. -/
def chainWithin (s : Store) : (steps : Nat) → EnvId → List EnvId
  | 0, _ => []
  | steps + 1, env =>
    match s.environment? env with
    | none => []
    | some e =>
      match e.parent with
      | none => [env]
      | some parent => env :: s.chainWithin steps parent

/-- An environment and those around it, innermost first. Parents are older, so there are no more
than have been made up to the first. A place outside the store has no chain. -/
def chain (s : Store) (env : EnvId) : List EnvId := s.chainWithin (env.index + 1) env

def depth (s : Store) (env : EnvId) : Nat := (s.chain env).length

/-- The outermost environment around another. -/
def root (s : Store) (env : EnvId) : EnvId := (s.chain env).getLastD env

/-- The frame of an environment, as a mapping. -/
def frame (s : Store) (env : EnvId) : Bindings Value :=
  match s.environment? env with
  | none => ∅
  | some e => s.mapping e.frame

/-- The value that `name` has in the innermost frame that binds it. -/
def lookup (s : Store) (env : EnvId) (name : String) : Option Value :=
  (s.chain env).findSome? fun e => (s.frame e).find? name

/-- What a variable stands for. One that no frame binds is a failure. -/
def get (s : Store) (env : EnvId) (name : VarName) : Answer :=
  match s.lookup env name.key with
  | some v => .success v
  | none => .failure

/-- Whether a variable stands for anything. -/
def contains (s : Store) (env : EnvId) (name : VarName) : Bool := (s.get env name).ok

/-- The number of entries of a mapping or items of an array. -/
def size? (s : Store) : Value → Option Nat
  | .mapping id => some (s.mapping id).size
  | .array _ items => some items.length
  | _ => none

/-- Whether a host takes a value for true: all are but nil and what has a size of zero. -/
def isTrue (s : Store) (v : Value) : Bool := !v.isNil && s.size? v != some 0

/-- Makes a mapping with the given contents. -/
def newMapping (s : Store) (contents : Bindings Value) : MappingId × Store :=
  (⟨s.mappings.size⟩, { s with mappings := s.mappings.push contents })

/-- Writes one name of a mapping. -/
def write (s : Store) (id : MappingId) (name : String) (v : Value) : Store :=
  { s with mappings := s.mappings.modify id.index (·.insert name v) }

/-- Binds `name` in the frame of an environment. -/
def bind (s : Store) (env : EnvId) (name : String) (v : Value) : Store :=
  match s.environment? env with
  | none => s
  | some e => s.write e.frame name v

/-- Makes a variable stand for a value from here inwards. -/
def put (s : Store) (env : EnvId) (name : VarName) (v : Value) : Store := s.bind env name.key v

/-- Makes an environment with a new frame of the given contents. -/
def newEnvironment (s : Store) (parent : Option EnvId) (contents : Bindings Value) :
    EnvId × Store :=
  let (frame, s) := s.newMapping contents
  (⟨s.environments.size⟩, { s with environments := s.environments.push ⟨frame, parent⟩ })

/-- Makes an environment with an empty frame and nothing around it. -/
def newRoot (s : Store) : EnvId × Store := s.newEnvironment none ∅

/-- Makes an environment inside `env` whose frame has the given contents. Nothing is inside a place
outside the store. -/
def newChild (s : Store) (env : EnvId) (contents : Bindings Value) : EnvId × Store :=
  s.newEnvironment (if env.index < s.environments.size then some env else none) contents

/-- Puts off an expression. -/
def newPromise (s : Store) (expression : Value) (env : EnvId) : PromiseId × Store :=
  (⟨s.promises.size⟩, { s with promises := s.promises.push ⟨expression, env, none⟩ })

/-- Stores the answer of a promise, over any answer it already has. -/
def memoise (s : Store) (id : PromiseId) (a : Answer) : Store :=
  { s with promises := s.promises.modify id.index fun p => { p with memo := some a } }

def newMark (s : Store) : Mark × Store := (⟨s.marks⟩, { s with marks := s.marks + 1 })

/-- Adds a record to the journal if the level keeps it. -/
def note (s : Store) (level : Int) (r : Record) : Store :=
  if r.kept level then { s with records := s.records.push r } else s

/-- Makes a value visible outside. -/
def emit (s : Store) (v : Value) : Store := { s with effects := s.effects.push v }

/-! ## What the operations do to mappings, environments and promises -/

theorem mapping_write (s : Store) (id other : MappingId) (name : String) (v : Value) :
    (s.write id name v).mapping other =
      if id = other ∧ id.index < s.mappings.size then (s.mapping other).insert name v
      else s.mapping other := by
  obtain ⟨i⟩ := id
  obtain ⟨j⟩ := other
  simp only [mapping, write, Array.getD_eq_getD_getElem?, Array.getElem?_modify, MappingId.mk.injEq]
  by_cases h : i = j
  · subst h
    by_cases hi : i < s.mappings.size <;> simp [hi]
  · simp [h]

theorem mapping_newMapping (s : Store) (contents : Bindings Value) (id : MappingId) :
    (s.newMapping contents).2.mapping id =
      if id = (s.newMapping contents).1 then contents else s.mapping id := by
  obtain ⟨i⟩ := id
  simp only [mapping, newMapping, Array.getD_eq_getD_getElem?, Array.getElem?_push,
    MappingId.mk.injEq]
  split <;> rfl

theorem environment?_newEnvironment (s : Store) (parent : Option EnvId) (contents : Bindings Value)
    (env : EnvId) :
    (s.newEnvironment parent contents).2.environment? env =
      if env = (s.newEnvironment parent contents).1 then some ⟨⟨s.mappings.size⟩, parent⟩
      else s.environment? env := by
  obtain ⟨i⟩ := env
  simp only [environment?, newEnvironment, newMapping, Array.getElem?_push, EnvId.mk.injEq]

theorem environments_bind (s : Store) (env : EnvId) (name : String) (v : Value) :
    (s.bind env name v).environments = s.environments := by
  unfold bind
  split <;> rfl

theorem promise_newPromise (s : Store) (expression : Value) (env : EnvId) (id : PromiseId) :
    (s.newPromise expression env).2.promise id =
      if id = (s.newPromise expression env).1 then ⟨expression, env, none⟩ else s.promise id := by
  obtain ⟨i⟩ := id
  simp only [promise, newPromise, Array.getD_eq_getD_getElem?, Array.getElem?_push,
    PromiseId.mk.injEq]
  split <;> rfl

theorem promise_memoise (s : Store) (id other : PromiseId) (a : Answer) :
    (s.memoise id a).promise other =
      if id = other ∧ id.index < s.promises.size then { s.promise other with memo := some a }
      else s.promise other := by
  obtain ⟨i⟩ := id
  obtain ⟨j⟩ := other
  simp only [promise, memoise, Array.getD_eq_getD_getElem?, Array.getElem?_modify,
    PromiseId.mk.injEq]
  by_cases h : i = j
  · subst h
    by_cases hi : i < s.promises.size <;> simp [hi]
  · simp [h]

end Store

end LispCore
