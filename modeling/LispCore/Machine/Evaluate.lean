import LispCore.Machine.Arguments

/-!
# Evaluation

A symbol is looked up, a pair is a call of the procedure its head evaluates to, a promise is forced,
and everything else is its own value. A native gets the evaluated arguments, or the raw list if it is
lazy; a closure gets evaluated or deferred arguments and has its body evaluated in a new environment
inside the one it was made in. Failures are answers and are noted in the journal.

`step` says what one call does, given how the calls inside it are made; `perform` closes the circle,
one level of depth at a time. A property that `step` keeps is thereby a property of all evaluation.
-/

namespace LispCore.Machine

variable {M : Type → Type} [Monad M] [MonadLiftT EvalM M]
variable (m : Machine) (depth : Nat) (self : Call → M Answer)

/-- Forces a value, and its result again, until it fails or is no promise. -/
def forceWith : (links : Nat) → Value → M Answer
  | 0, .promise _ => EvalM.stop .unfinished
  | links + 1, .promise id => do
    let a ← self (.force id)
    if a.ok then forceWith links a.value else pure a
  | _, v => pure (.success v)

/-- Serves one request of a native. -/
def serveWith : (r : Request) → M r.Reply
  | .evaluate e env => self (.evaluate e env)
  | .force v => forceWith self m.links v
  | .applyClosure c params => self (.closure c params)
  | .applyNative p params env => self (.native p params env)
  | .chain env => EvalM.read (·.chain env)
  | .lookup env name => EvalM.read (·.lookup env name)
  | .bind env name v => EvalM.change (·.bind env name v)
  | .newChild env => EvalM.act (·.newChild env ∅)
  | .newMapping => EvalM.act (·.newMapping ∅)
  | .read id name => EvalM.read fun s => (s.mapping id).find? name
  | .write id name v => EvalM.change (·.write id name v)
  | .newPromise e env => EvalM.act (·.newPromise e env)
  | .newMark => EvalM.act Store.newMark
  | .emit v => EvalM.change (·.emit v)
  | .effects => EvalM.read (·.effects)
  | .render v => EvalM.render depth v

def runWith {α : Type} : Script α → M α
  | .done a => pure a
  | .raise fault => EvalM.raise depth fault
  | .ask request next => do runWith (next (← m.serveWith depth self request))

/-- Applies the value of the head of `expression` to the arguments behind it. -/
def applyWith (expression callee args : Value) (env : EnvId) : M Answer :=
  match callee with
  | .native p =>
    if p.isLazy then self (.native p args env)
    else do
      let params ← self (.arguments args env)
      if params.ok then self (.native p params.value env) else pure .failure
  | .closure mark names body home isLazy => do
    let params ← self (.parameters isLazy args env)
    if params.ok then self (.closure ⟨mark, names, body, home, isLazy⟩ params.value)
    else pure .failure
  | v => do
    let shown ← EvalM.render depth v
    let whole ← EvalM.render depth expression
    m.note .evaluator .debug ("Not a procedure: " ++ shown ++ " in " ++ whole)
    pure .failure

/-- Evaluates an expression. -/
def evaluateWith (expression : Value) (env : EnvId) : M Answer :=
  match expression with
  | .symbol name => do
    match ← EvalM.read (·.lookup env name) with
    | some v => pure (.success v)
    | none =>
      m.note .evaluator .debug ("Unbound symbol " ++ name)
      pure .failure
  | .pair mark head args => do
    let callee ← self (.evaluate head env)
    if callee.ok then m.applyWith depth self (.pair mark head args) callee.value args env
    else
      let whole ← EvalM.render depth (.pair mark head args)
      m.note .evaluator .debug ("Callee failed to evaluate in " ++ whole)
      pure .failure
  | .promise id => self (.force id)
  | v => pure (.success v)

/-- The answer of a promise: the stored one, else that of its expression, which is then stored. -/
def forceOnceWith (id : PromiseId) : M Answer := do
  let p ← EvalM.read (·.promise id)
  match p.memo with
  | some a => pure a
  | none =>
    let a ← self (.evaluate p.expression p.env)
    EvalM.change (·.memoise id a)
    pure a

/-- Evaluates the body of a closure with its parameters bound. -/
def applyClosureWith (c : Closure) (params : Value) : M Answer := do
  let (env, ok) ← m.enter c params
  if ok then self (.evaluate c.body env) else pure .failure

/-- Notes that a native failed, if it did. -/
def reportFailure (p : Native) (a : Answer) : EvalM Unit :=
  if a.ok then pure ()
  else m.note .application .debug ("Native procedure " ++ p.name ++ " reported failure")

/-- Runs the routine of a native. -/
def applyNativeWith (p : Native) (params : Value) (env : EnvId) : M Answer := do
  let a ← m.runWith depth self (m.library p.routine params env)
  m.reportFailure p a
  pure a

/-- What one call does, given how the calls inside it are made. -/
def step : Call → M Answer
  | .evaluate expression env => m.evaluateWith depth self expression env
  | .arguments args env => m.argumentsWith depth self args env
  | .deferred args env => m.deferredWith depth self args env
  | .force id => forceOnceWith self id
  | .closure c params => m.applyClosureWith self c params
  | .native p params env => m.applyNativeWith depth self p params env

/-- Makes a call with `depth` levels left. -/
def perform : (depth : Nat) → Call → EvalM Answer
  | 0, _ => .stop .tooDeep
  | depth + 1, call => m.step depth (perform depth) call

/-! The operations a host uses, with `depth` levels left. -/

def evaluate (expression : Value) (env : EnvId) : EvalM Answer :=
  m.perform depth (.evaluate expression env)

def evaluateArguments (args : Value) (env : EnvId) : EvalM Answer :=
  m.perform depth (.arguments args env)

def deferredArguments (args : Value) (env : EnvId) : EvalM Answer :=
  m.perform depth (.deferred args env)

def force (v : Value) : EvalM Answer := forceWith (m.perform depth) m.links v

/-- The forced value, or nil if forcing fails. -/
def forcedValue (v : Value) : EvalM Value := do
  let a ← m.force depth v
  pure (if a.ok then a.value else .nil)

def applyClosure (c : Closure) (params : Value) : EvalM Answer :=
  m.perform depth (.closure c params)

def applyNative (p : Native) (params : Value) (env : EnvId) : EvalM Answer :=
  m.perform depth (.native p params env)

end LispCore.Machine
