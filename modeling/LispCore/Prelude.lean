import LispCore.Script

/-!
# A library of natives

Arithmetic, lists, control, definitions and scopes, written as scripts. A native that takes a list of
arguments first walks it, so an improper list is a fault before anything else. A wrong number or
kind of arguments is answered by a failure that names the native.
-/

namespace LispCore

/-- A native as a library offers it. -/
structure Primitive where
  name : String
  isLazy : Bool
  routine : Routine

namespace Prelude

def succeed (v : Value) : Script Answer := pure (.success v)

def badArguments (name : String) : Script Answer := pure ⟨.string ("bad-args:" ++ name), false⟩

def arguments (params : Value) : Script (List Value) := .ofExcept params.listElements

def truth (b : Bool) : Value := .integer (if b then 1 else 0)

def integers? : List Value → Option (List Int)
  | [] => some []
  | .integer n :: vs => (integers? vs).map (n :: ·)
  | _ => none

/-- Forces all arguments and combines them if they are integers. -/
def arithmetic (name : String) (combine : List Int → Int) : Routine := fun params _ => do
  let args ← arguments params
  let vs ← args.mapM Script.value
  match integers? vs with
  | some ns => succeed (.integer (combine ns))
  | none => badArguments name

def add : Routine := arithmetic "add" (List.foldl (· + ·) 0)

def mul : Routine := arithmetic "mul" (List.foldl (· * ·) 1)

def less : Routine := fun params _ => do
  match ← arguments params with
  | [a, b] =>
    match ← Script.value a, ← Script.value b with
    | .integer m, .integer n => succeed (truth (m < n))
    | _, _ => badArguments "less"
  | _ => badArguments "less"

def tick : Routine := fun params _ => do
  match ← arguments params with
  | a :: _ =>
    let v ← Script.value a
    Script.request (.emit v)
    succeed v
  | [] => badArguments "tick"

def last : Routine := fun params _ => do
  let args ← arguments params
  succeed (args.getLastD .nil)

/-- Gives back the list of parameters as it is. -/
def whole : Routine := fun params _ => succeed params

def pickFirst : Routine := fun params _ => do
  match ← arguments params with
  | a :: _ => succeed (← Script.value a)
  | [] => badArguments "pick-first"

def both : Routine := fun params _ => do
  match ← arguments params with
  | [a, b] => succeed (← Script.newList [← Script.value a, ← Script.value b])
  | _ => badArguments "both"

def cons : Routine := fun params _ => do
  match ← arguments params with
  | [a, b] => succeed (← Script.newPair a b)
  | _ => badArguments "cons"

def first : Routine := fun params _ => do
  match ← arguments params with
  | [a] =>
    match ← Script.value a with
    | .pair _ v _ => succeed v
    | _ => badArguments "first"
  | _ => badArguments "first"

def rest : Routine := fun params _ => do
  match ← arguments params with
  | [a] =>
    match ← Script.value a with
    | .pair _ _ v => succeed v
    | _ => badArguments "rest"
  | _ => badArguments "rest"

def fail : Routine := fun params _ => do
  let _ ← arguments params
  pure ⟨.string "boom", false⟩

def failWith : Routine := fun params _ => do
  match ← arguments params with
  | [a] => pure ⟨a, false⟩
  | _ => badArguments "fail-with"

def raise : Routine := fun params _ => do
  let _ ← arguments params
  .raise (.native "raised by native")

def length : Routine := fun params _ => do
  match ← arguments params with
  | [a] =>
    let v ← Script.value a
    let n ← .ofExcept v.listLength
    succeed (.integer n)
  | _ => badArguments "length"

def render : Routine := fun params _ => do
  match ← arguments params with
  | [a] => succeed (.string (← Script.request (.render a)))
  | _ => badArguments "render"

def force : Routine := fun params _ => do
  match ← arguments params with
  | [a] => Script.request (.force a)
  | _ => badArguments "force"

/-- Applies a procedure to a list of parameters, a native in the environment of the caller. -/
def apply : Routine := fun params env => do
  match ← arguments params with
  | [a, b] =>
    let callee ← Script.value a
    let args ← Script.value b
    match callee with
    | .closure mark names body home isLazy =>
      Script.request (.applyClosure ⟨mark, names, body, home, isLazy⟩ args)
    | .native p => Script.request (.applyNative p args env)
    | _ => badArguments "apply"
  | _ => badArguments "apply"

/-- Makes a closure over the environment of the caller. -/
def lambda (name : String) (isLazy : Bool) : Routine := fun params env => do
  match ← arguments params with
  | [names, body] =>
    let elements ← Script.ofExcept names.listElements
    let names ← Script.ofExcept (Value.paramNames elements)
    let mark ← Script.request .newMark
    succeed (.closure mark names body env isLazy)
  | _ => badArguments name

/-- Binds the value of an answer, if it is ok, and passes the answer on. -/
def bindAnswer (env : EnvId) (key : String) (a : Answer) : Script Answer :=
  if a.ok then do
    Script.request (.bind env key a.value)
    pure a
  else pure a

/-- Evaluates in the environment of the caller and binds the value there. -/
def define : Routine := fun params env => do
  match ← arguments params with
  | [.symbol key, e] => bindAnswer env key (← Script.request (.evaluate e env))
  | _ => badArguments "define"

/-- Evaluates in the environment of the caller and binds the value in the outermost one. -/
def defineRoot : Routine := fun params env => do
  match ← arguments params with
  | [.symbol key, e] =>
    let a ← Script.request (.evaluate e env)
    let chain ← Script.request (.chain env)
    bindAnswer (chain.getLastD env) key a
  | _ => badArguments "define-root"

def quote : Routine := fun params _ => do
  match ← arguments params with
  | [a] => succeed a
  | _ => badArguments "quote"

/-- Nil and zero count as false; a promise is not forced and counts as true. -/
def isFalse : Value → Bool
  | .nil => true
  | .integer n => n == 0
  | _ => false

def choose : Routine := fun params env => do
  match ← arguments params with
  | [test, yes, no] =>
    let a ← Script.request (.evaluate test env)
    if a.ok then Script.request (.evaluate (if isFalse a.value then no else yes) env)
    else pure .failure
  | _ => badArguments "if"

/-- Evaluates expressions in order up to the first that fails; `a` is the answer so far. -/
def sequenceFrom (env : EnvId) (a : Answer) : List Value → Script Answer
  | [] => pure a
  | e :: es => do
    let a ← Script.request (.evaluate e env)
    if a.ok then sequenceFrom env a es else pure a

def sequence : Routine := fun params env => do
  sequenceFrom env (.success .nil) (← arguments params)

def delay : Routine := fun params env => do
  match ← arguments params with
  | [e] => succeed (.promise (← Script.request (.newPromise e env)))
  | _ => badArguments "delay"

def depth : Routine := fun params env => do
  let _ ← arguments params
  let chain ← Script.request (.chain env)
  succeed (.integer chain.length)

def bound : Routine := fun params env => do
  match ← arguments params with
  | [.symbol name] => succeed (truth (← Script.request (.lookup env name)).isSome)
  | _ => badArguments "bound?"

def scope : Routine := fun params env => do
  match ← arguments params with
  | [e] => Script.request (.evaluate e (← Script.request (.newChild env)))
  | _ => badArguments "scope"

def up : Routine := fun params env => do
  match ← arguments params with
  | [e] =>
    match ← Script.request (.chain env) with
    | _ :: parent :: _ => Script.request (.evaluate e parent)
    | _ => .raise .noParent
  | _ => badArguments "up"

def primitives : List Primitive :=
  [⟨"add", false, add⟩, ⟨"mul", false, mul⟩, ⟨"less", false, less⟩, ⟨"tick", false, tick⟩,
    ⟨"last", false, last⟩, ⟨"list", false, whole⟩, ⟨"raw", true, whole⟩,
    ⟨"pick-first", false, pickFirst⟩, ⟨"both", false, both⟩, ⟨"cons", false, cons⟩,
    ⟨"first", false, first⟩, ⟨"rest", false, rest⟩, ⟨"fail", false, fail⟩,
    ⟨"fail-with", false, failWith⟩, ⟨"raise", false, raise⟩, ⟨"length", false, length⟩,
    ⟨"render", false, render⟩, ⟨"force", false, force⟩, ⟨"apply", false, apply⟩,
    ⟨"lambda", true, lambda "lambda" false⟩, ⟨"lazy-lambda", true, lambda "lazy-lambda" true⟩,
    ⟨"define", true, define⟩, ⟨"define-root", true, defineRoot⟩,
    ⟨"quote", true, quote⟩, ⟨"if", true, choose⟩, ⟨"do", true, sequence⟩,
    ⟨"delay", true, delay⟩, ⟨"depth", true, depth⟩, ⟨"bound?", true, bound⟩,
    ⟨"scope", true, scope⟩, ⟨"up", true, up⟩]

/-- The routines by name; any other name has a routine that fails. -/
def library : Library := fun key =>
  match primitives.find? (·.name == key) with
  | some primitive => primitive.routine
  | none => fun _ _ => pure .failure

end Prelude

end LispCore
