import LispCore.Fault

/-!
# Scripts of natives

A native does its work by requests to the evaluator and the store, one after the other, each chosen
from the replies to those before it. A script is such a course of work, as a tree: it ends with a
result or a fault, or asks for something and goes on from the reply. The evaluator runs scripts, so
what a native can see and change is what the requests offer.

A script goes on from replies alone. If what it asks for ends without an answer, with a fault or out
of depth, the script ends there too: natives are taken not to catch errors. What is shown about all
natives is shown about natives of this kind.
-/

namespace LispCore

inductive Request where
  /-- Evaluate an expression. -/
  | evaluate (expression : Value) (env : EnvId)
  /-- Force a value until it is no promise. -/
  | force (v : Value)
  /-- Apply a closure to a list of parameters. -/
  | applyClosure (c : Closure) (params : Value)
  /-- Apply a native to a list of parameters. -/
  | applyNative (p : Native) (params : Value) (env : EnvId)
  /-- Follow the links from an environment outwards. -/
  | chain (env : EnvId)
  /-- Look a name up along the chain of an environment. -/
  | lookup (env : EnvId) (name : String)
  /-- Bind a name in the frame of an environment. -/
  | bind (env : EnvId) (name : String) (v : Value)
  /-- Make an environment with an empty frame inside another. -/
  | newChild (env : EnvId)
  /-- Make an empty mapping. -/
  | newMapping
  /-- Read one name of a mapping. -/
  | read (id : MappingId) (name : String)
  /-- Write one name of a mapping. -/
  | write (id : MappingId) (name : String) (v : Value)
  /-- Put an expression off. -/
  | newPromise (expression : Value) (env : EnvId)
  /-- Take a new mark. -/
  | newMark
  /-- Make a value visible outside. -/
  | emit (v : Value)
  /-- See all values made visible so far. -/
  | effects
  /-- Render a value. -/
  | render (v : Value)

/-- What comes back for a request. -/
abbrev Request.Reply : Request → Type
  | .evaluate .. => Answer
  | .force _ => Answer
  | .applyClosure .. => Answer
  | .applyNative .. => Answer
  | .chain _ => List EnvId
  | .lookup .. => Option Value
  | .bind .. => Unit
  | .newChild _ => EnvId
  | .newMapping => MappingId
  | .read .. => Option Value
  | .write .. => Unit
  | .newPromise .. => PromiseId
  | .newMark => Mark
  | .emit _ => Unit
  | .effects => Array Value
  | .render _ => String

inductive Script (α : Type) where
  | done (result : α)
  | raise (fault : Fault)
  | ask (request : Request) (next : request.Reply → Script α)

namespace Script

variable {α β : Type}

def andThen : Script α → (α → Script β) → Script β
  | .done a, f => f a
  | .raise fault, _ => .raise fault
  | .ask request next, f => .ask request fun reply => (next reply).andThen f

instance : Monad Script where
  pure := .done
  bind := andThen

def ofExcept : Except Fault α → Script α
  | .ok a => .done a
  | .error fault => .raise fault

def request (r : Request) : Script r.Reply := .ask r .done

/-- Forces a value; one that fails counts as nil. -/
def value (v : Value) : Script Value := do
  let a ← request (.force v)
  pure (if a.ok then a.value else .nil)

/-- Makes a pair. -/
def newPair (first rest : Value) : Script Value := do
  return .pair (← request .newMark) first rest

/-- Makes a proper list, from its end. -/
def newList : List Value → Script Value
  | [] => pure .nil
  | v :: vs => do newPair v (← newList vs)

theorem andThen_done (x : Script α) : x.andThen .done = x := by
  induction x with
  | done | raise => rfl
  | ask r next ih => simp [andThen, ih]

theorem andThen_assoc {γ : Type} (x : Script α) (f : α → Script β) (g : β → Script γ) :
    (x.andThen f).andThen g = x.andThen fun a => (f a).andThen g := by
  induction x with
  | done | raise => rfl
  | ask r next ih => simp [andThen, ih]

instance : LawfulMonad Script :=
  LawfulMonad.mk' Script andThen_done (fun _ _ => rfl) andThen_assoc

end Script

/-- What a native does with a list of parameters in the environment it is called from. -/
abbrev Routine := Value → EnvId → Script Answer

/-- The routines that natives refer to by their keys. -/
abbrev Library := String → Routine

end LispCore
