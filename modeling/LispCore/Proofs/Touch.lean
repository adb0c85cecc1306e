import LispCore.Proofs.Respect

/-! # How evaluation touches the store

Apart from storing the answer of a promise, evaluation changes the store in a
handful of ways, and hosts add one, making an outermost environment. `Touched`
is the closure of these, and every store action of evaluation stays inside it.
An invariant of runs therefore has to be checked against the constructors of
`Touched` and against storing an answer, and against nothing else. -/
namespace LispCore

/-- The store that a computation leaves, whether it answers or stops. -/
def endStore {α : Type} : EStateM.Result Stop Store α → Store
  | .ok _ s => s
  | .error _ s => s

namespace Store

/-- The changes that evaluation and hosts make to a store, memoising apart. -/
inductive Touched : Store → Store → Prop
  | refl (s : Store) : Touched s s
  | trans {s t u : Store} : Touched s t → Touched t u → Touched s u
  | note (s : Store) (level : Int) (r : Record) : Touched s (s.note level r)
  | mark (s : Store) : Touched s s.newMark.2
  | promise (s : Store) (e : Value) (env : EnvId) : Touched s (s.newPromise e env).2
  | mapping (s : Store) : Touched s (s.newMapping ∅).2
  | root (s : Store) : Touched s s.newRoot.2
  | child (s : Store) (env : EnvId) (contents : Bindings Value) :
      Touched s (s.newChild env contents).2
  | bind (s : Store) (env : EnvId) (name : String) (v : Value) : Touched s (s.bind env name v)
  | write (s : Store) (id : MappingId) (name : String) (v : Value) :
      Touched s (s.write id name v)
  | emit (s : Store) (v : Value) : Touched s (s.emit v)

end Store

open Store (Touched)

theorem touched_render (d : Nat) (v : Value) (s : Store) :
    Touched s (endStore (EvalM.render d v s)) := by
  unfold EvalM.render
  split <;> exact .refl s

theorem touched_raise {α : Type} (d : Nat) (fault : Fault) (s : Store) :
    Touched s (endStore (EvalM.raise d fault s : EStateM.Result Stop Store α)) := by
  unfold EvalM.raise
  split <;> exact .refl s

theorem EvaluatorAction.touched {m m' : Machine} {d d' : Nat} {α : Type} {x y : EvalM α}
    (h : EvaluatorAction m m' d d' α x y) (s : Store) : Touched s (endStore (x s)) := by
  cases h with
  | render v => exact touched_render d v s
  | note text => exact .note s _ _
  | lookup => exact .refl s
  | newPair => exact .mark s
  | newPromise e env => exact .promise s e env

theorem NativeAction.touched {m m' : Machine} {d d' : Nat} {α : Type} {x y : EvalM α}
    (h : NativeAction m m' d d' α x y) (s : Store) : Touched s (endStore (x s)) := by
  cases h with
  | report p a =>
    unfold Machine.reportFailure
    split
    · exact .refl s
    · exact .note s _ _
  | raise _ fault => exact touched_raise d fault s
  | chain | lookup | read | effects => exact .refl s
  | bind env name v => exact .bind s env name v
  | newChild env => exact .child s env ∅
  | newMapping => exact .mapping s
  | write id name v => exact .write s id name v
  | newPromise e env => exact .promise s e env
  | newMark => exact .mark s
  | emit v => exact .emit s v
  | render v => exact touched_render d v s

theorem touched_enter (m : Machine) (c : Closure) (params : Value) (s : Store) :
    Touched s (endStore (m.enter c params s)) := by
  have hc := Touched.child s c.env (matchParams c.params params ∅).frame
  unfold Machine.enter
  simp only [bind, EStateM.bind, EvalM.act]
  split
  · exact hc.trans (.note _ _ _)
  · exact hc

/-! ## Actions do not depend on how they are told apart -/

theorem EvaluatorAction.eq {m : Machine} {d : Nat} {α : Type} {x y : EvalM α}
    (h : EvaluatorAction m m d d α x y) : x = y := by
  cases h <;> rfl

theorem NativeAction.eq {m : Machine} {d : Nat} {α : Type} {x y : EvalM α}
    (h : NativeAction m m d d α x y) : x = y := by
  cases h <;> rfl

end LispCore
