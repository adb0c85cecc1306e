import LispCore.Machine.Evaluate

/-! # What one call of evaluation respects

`Machine.step` says what a call does in any setting: how store actions are run
and how nested calls are made is left open. Hence a relation between the
computations of two settings that returning, sequencing and the few store
actions of evaluation respect is respected by the whole step, provided nested
calls respect it. `Respects` collects what is asked of such a relation and
`Respects.step` is the law. Monotonicity in the limits, the erasure of traces
and the invariants of runs are all instances, each by an induction on the
depth that has this law as its step. -/
namespace LispCore

section Relations
variable {M N : Type → Type} [Monad M] [Monad N]

/-- Returning and sequencing respect a relation between two settings. -/
structure Sequential (R : ∀ α : Type, M α → N α → Prop) : Prop where
  pure {α : Type} (a : α) : R α (pure a) (pure a)
  bind {α β : Type} {x : M α} {y : N α} {f : α → M β} {g : α → N β} :
    R α x y → (∀ a, R β (f a) (g a)) → R β (x >>= f) (y >>= g)

end Relations

/-- The store actions of evaluating an expression, side by side on two machines
with the depths left to them. -/
inductive EvaluatorAction (m m' : Machine) (d d' : Nat) :
    ∀ α : Type, EvalM α → EvalM α → Prop
  | render (v : Value) : EvaluatorAction m m' d d' String (.render d v) (.render d' v)
  | note (text : String) :
      EvaluatorAction m m' d d' Unit (m.note .evaluator .debug text) (m'.note .evaluator .debug text)
  | lookup (env : EnvId) (name : String) :
      EvaluatorAction m m' d d' (Option Value) (.read (·.lookup env name))
        (.read (·.lookup env name))
  | newPair (v w : Value) :
      EvaluatorAction m m' d d' Value (.act (·.newPair v w)) (.act (·.newPair v w))
  | newPromise (e : Value) (env : EnvId) :
      EvaluatorAction m m' d d' PromiseId (.act (·.newPromise e env)) (.act (·.newPromise e env))

/-- The store actions of running a native, side by side on two machines. -/
inductive NativeAction (m m' : Machine) (d d' : Nat) : ∀ α : Type, EvalM α → EvalM α → Prop
  | report (p : Native) (a : Answer) :
      NativeAction m m' d d' Unit (m.reportFailure p a) (m'.reportFailure p a)
  | raise (α : Type) (fault : Fault) : NativeAction m m' d d' α (.raise d fault) (.raise d' fault)
  | chain (env : EnvId) :
      NativeAction m m' d d' (List EnvId) (.read (·.chain env)) (.read (·.chain env))
  | lookup (env : EnvId) (name : String) :
      NativeAction m m' d d' (Option Value) (.read (·.lookup env name)) (.read (·.lookup env name))
  | bind (env : EnvId) (name : String) (v : Value) :
      NativeAction m m' d d' Unit (.change (·.bind env name v)) (.change (·.bind env name v))
  | newChild (env : EnvId) :
      NativeAction m m' d d' EnvId (.act (·.newChild env ∅)) (.act (·.newChild env ∅))
  | newMapping : NativeAction m m' d d' MappingId (.act (·.newMapping ∅)) (.act (·.newMapping ∅))
  | read (id : MappingId) (name : String) :
      NativeAction m m' d d' (Option Value) (.read fun s => (s.mapping id).find? name)
        (.read fun s => (s.mapping id).find? name)
  | write (id : MappingId) (name : String) (v : Value) :
      NativeAction m m' d d' Unit (.change (·.write id name v)) (.change (·.write id name v))
  | newPromise (e : Value) (env : EnvId) :
      NativeAction m m' d d' PromiseId (.act (·.newPromise e env)) (.act (·.newPromise e env))
  | newMark : NativeAction m m' d d' Mark (.act Store.newMark) (.act Store.newMark)
  | emit (v : Value) : NativeAction m m' d d' Unit (.change (·.emit v)) (.change (·.emit v))
  | effects : NativeAction m m' d d' (Array Value) (.read (·.effects)) (.read (·.effects))
  | render (v : Value) : NativeAction m m' d d' String (.render d v) (.render d' v)

variable {M N : Type → Type} [Monad M] [Monad N] [MonadLiftT EvalM M] [MonadLiftT EvalM N]

/-- What evaluating an expression asks of a relation between two settings. -/
structure EvaluatorRespects (m m' : Machine) (d d' : Nat) (R : ∀ α : Type, M α → N α → Prop) : Prop
    extends Sequential R where
  action {α : Type} {x y : EvalM α} : EvaluatorAction m m' d d' α x y → R α (liftM x) (liftM y)

/-- What running a native asks of a relation between two settings. -/
structure NativeRespects (m m' : Machine) (d d' : Nat) (R : ∀ α : Type, M α → N α → Prop) : Prop
    extends Sequential R where
  library : m.library = m'.library
  action {α : Type} {x y : EvalM α} : NativeAction m m' d d' α x y → R α (liftM x) (liftM y)

/-- What evaluation on `m` with `d` levels left, in one setting, and on `m'` with
`d'` levels left, in another, ask of a relation between the two. -/
structure Respects (m m' : Machine) (d d' : Nat) (R : ∀ α : Type, M α → N α → Prop) : Prop where
  evaluator : EvaluatorRespects m m' d d' R
  enter (c : Closure) (params : Value) :
    R (EnvId × Bool) (liftM (m.enter c params)) (liftM (m'.enter c params))
  native : NativeRespects m m' d d' R

variable {m m' : Machine} {d d' : Nat} {R : ∀ α : Type, M α → N α → Prop}
variable {self : Call → M Answer} {self' : Call → N Answer}

namespace EvaluatorRespects

/-! ## Preparing arguments -/

theorem improperArguments (h : EvaluatorRespects m m' d d' R) (tail : Value) :
    R Answer (m.improperArguments d tail) (m'.improperArguments d' tail) := by
  refine h.bind (h.action (.render tail)) fun text => ?_
  exact h.bind (h.action (.note _)) fun _ => h.pure _

theorem argumentsWith (h : EvaluatorRespects m m' d d' R) (hs : ∀ c, R Answer (self c) (self' c))
    (args : Value) (env : EnvId) :
    R Answer (m.argumentsWith d self args env) (m'.argumentsWith d' self' args env) := by
  unfold Machine.argumentsWith
  cases args with
  | nil => exact h.pure _
  | pair _ first rest =>
    refine h.bind (hs _) fun head => ?_
    split
    · refine h.bind (hs _) fun tail => ?_
      split
      · exact h.bind (h.action (.newPair _ _)) fun _ => h.pure _
      · exact h.pure _
    · exact h.pure _
  | _ => exact h.improperArguments _

theorem deferredWith (h : EvaluatorRespects m m' d d' R) (hs : ∀ c, R Answer (self c) (self' c))
    (args : Value) (env : EnvId) :
    R Answer (m.deferredWith d self args env) (m'.deferredWith d' self' args env) := by
  unfold Machine.deferredWith
  cases args with
  | nil => exact h.pure _
  | pair _ first rest =>
    refine h.bind (hs _) fun tail => ?_
    split
    · refine h.bind (h.action (.newPromise _ _)) fun id => ?_
      exact h.bind (h.action (.newPair _ _)) fun _ => h.pure _
    · exact h.pure _
  | _ => exact h.improperArguments _

/-! ## Evaluating expressions -/

theorem applyWith (h : EvaluatorRespects m m' d d' R) (hs : ∀ c, R Answer (self c) (self' c))
    (e callee args : Value) (env : EnvId) :
    R Answer (m.applyWith d self e callee args env) (m'.applyWith d' self' e callee args env) := by
  unfold Machine.applyWith
  cases callee with
  | native p =>
    dsimp only
    split
    · exact hs _
    · refine h.bind (hs _) fun params => ?_
      split
      · exact hs _
      · exact h.pure _
  | closure =>
    refine h.bind (hs _) fun params => ?_
    split
    · exact hs _
    · exact h.pure _
  | _ =>
    refine h.bind (h.action (.render _)) fun shown => ?_
    refine h.bind (h.action (.render _)) fun whole => ?_
    exact h.bind (h.action (.note _)) fun _ => h.pure _

theorem evaluateWith (h : EvaluatorRespects m m' d d' R) (hs : ∀ c, R Answer (self c) (self' c))
    (e : Value) (env : EnvId) :
    R Answer (m.evaluateWith d self e env) (m'.evaluateWith d' self' e env) := by
  unfold Machine.evaluateWith
  cases e with
  | symbol name =>
    refine h.bind (h.action (.lookup env name)) fun found => ?_
    cases found with
    | some v => exact h.pure _
    | none => exact h.bind (h.action (.note _)) fun _ => h.pure _
  | pair mark head args =>
    refine h.bind (hs _) fun callee => ?_
    split
    · exact h.applyWith hs _ _ args env
    · refine h.bind (h.action (.render _)) fun whole => ?_
      exact h.bind (h.action (.note _)) fun _ => h.pure _
  | promise id => exact hs _
  | _ => exact h.pure _

end EvaluatorRespects

/-! ## Running natives -/

namespace NativeRespects

/-- Serving a request. How the chain of a forced value is followed is left to
`hf`, since the two machines may follow different numbers of links. -/
theorem serveWith (h : NativeRespects m m' d d' R) (hs : ∀ c, R Answer (self c) (self' c))
    (hf : ∀ v, R Answer (Machine.forceWith self m.links v) (Machine.forceWith self' m'.links v))
    (r : Request) : R r.Reply (m.serveWith d self r) (m'.serveWith d' self' r) := by
  cases r with
  | evaluate | applyClosure | applyNative => exact hs _
  | force v => exact hf v
  | chain => exact h.action (.chain _)
  | lookup => exact h.action (.lookup _ _)
  | bind => exact h.action (.bind _ _ _)
  | newChild => exact h.action (.newChild _)
  | newMapping => exact h.action .newMapping
  | read => exact h.action (.read _ _)
  | write => exact h.action (.write _ _ _)
  | newPromise => exact h.action (.newPromise _ _)
  | newMark => exact h.action .newMark
  | emit => exact h.action (.emit _)
  | effects => exact h.action .effects
  | render => exact h.action (.render _)

theorem runWith (h : NativeRespects m m' d d' R) (hs : ∀ c, R Answer (self c) (self' c))
    (hf : ∀ v, R Answer (Machine.forceWith self m.links v) (Machine.forceWith self' m'.links v))
    {α : Type} (x : Script α) : R α (m.runWith d self x) (m'.runWith d' self' x) := by
  induction x with
  | done a => exact h.pure a
  | raise fault => exact h.action (.raise α fault)
  | ask r next ih => exact h.bind (h.serveWith hs hf r) fun reply => ih reply

theorem applyNativeWith (h : NativeRespects m m' d d' R) (hs : ∀ c, R Answer (self c) (self' c))
    (hf : ∀ v, R Answer (Machine.forceWith self m.links v) (Machine.forceWith self' m'.links v))
    (p : Native) (params : Value) (env : EnvId) :
    R Answer (m.applyNativeWith d self p params env) (m'.applyNativeWith d' self' p params env) := by
  unfold Machine.applyNativeWith
  rw [← h.library]
  refine h.bind (h.runWith hs hf _) fun a => ?_
  exact h.bind (h.action (.report p a)) fun _ => h.pure a

end NativeRespects

/-! ## Closures and promises -/

namespace Sequential

theorem applyClosureWith (h : Sequential R) (hs : ∀ c, R Answer (self c) (self' c))
    (c : Closure) (params : Value)
    (he : R (EnvId × Bool) (liftM (m.enter c params)) (liftM (m'.enter c params))) :
    R Answer (m.applyClosureWith self c params) (m'.applyClosureWith self' c params) := by
  refine h.bind he fun entered => ?_
  dsimp only
  split
  · exact hs _
  · exact h.pure _

/-- Following a chain with the same number of links. -/
theorem forceWith (h : Sequential R) (hs : ∀ c, R Answer (self c) (self' c))
    (hu : R Answer (liftM (EvalM.stop .unfinished)) (liftM (EvalM.stop .unfinished)))
    (links : Nat) (v : Value) :
    R Answer (Machine.forceWith self links v) (Machine.forceWith self' links v) := by
  induction links generalizing v with
  | zero =>
    cases v with
    | promise => exact hu
    | _ => exact h.pure _
  | succ links ih =>
    cases v with
    | promise id =>
      refine h.bind (hs _) fun a => ?_
      split
      · exact ih _
      · exact h.pure _
    | _ => exact h.pure _

/-- Asking a promise for its answer, from reading it and storing its answer. -/
theorem forceOnceWith (h : Sequential R) (hs : ∀ c, R Answer (self c) (self' c)) (id : PromiseId)
    (hr : R Promise (liftM (EvalM.read (·.promise id))) (liftM (EvalM.read (·.promise id))))
    (hm : ∀ a, R Unit (liftM (EvalM.change (·.memoise id a)))
      (liftM (EvalM.change (·.memoise id a)))) :
    R Answer (Machine.forceOnceWith self id) (Machine.forceOnceWith self' id) := by
  refine h.bind hr fun p => ?_
  split
  · exact h.pure _
  · refine h.bind (hs _) fun a => ?_
    exact h.bind (hm a) fun _ => h.pure a

end Sequential

/-- **One call respects what its nested calls respect.** -/
theorem Respects.step (h : Respects m m' d d' R) (hs : ∀ c, R Answer (self c) (self' c))
    (hf : ∀ v, R Answer (Machine.forceWith self m.links v) (Machine.forceWith self' m'.links v))
    (ho : ∀ id, R Answer (Machine.forceOnceWith self id) (Machine.forceOnceWith self' id))
    (c : Call) : R Answer (m.step d self c) (m'.step d' self' c) := by
  cases c with
  | evaluate e env => exact h.evaluator.evaluateWith hs e env
  | arguments args env => exact h.evaluator.argumentsWith hs args env
  | deferred args env => exact h.evaluator.deferredWith hs args env
  | force id => exact ho id
  | closure c params => exact h.evaluator.applyClosureWith hs c params (h.enter c params)
  | native p params env => exact h.native.applyNativeWith hs hf p params env

end LispCore
