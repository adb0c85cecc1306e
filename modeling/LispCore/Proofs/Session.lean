import LispCore.Prelude
import LispCore.Proofs.Trace

/-! # Sessions

A host asks the evaluator for one thing after another: calls, which prepare lists of
arguments too, bound parameters, and whatever a native may ask for, the changes of
environments and mappings among them. Each is served by a machine and to a depth
of its own, since settings may change in between, and one that stops leaves its
effects behind and the next goes on from there.

A session has a trace, the traces of its operations one after the other, and
what every run keeps every session keeps (`TraceLaw.session`). Sessions with the
prelude serve as samples, over stores whose one frame holds some of its natives. -/
namespace LispCore

open Store (Touched)

/-- What a host asks for. -/
inductive Operation where
  | call (c : Call)
  | enter (c : Closure) (params : Value)
  | request (r : Request)
  | newRoot
  | note (source : Source) (severity : Severity) (text : String)

namespace Operation
variable {M : Type → Type} [Monad M] [MonadLiftT EvalM M]

/-- Carries out an operation, whatever it answers. -/
def run (m : Machine) (depth : Nat) (self : Call → M Answer) : Operation → M Unit
  | .call c => do let _ ← self c
  | .enter c params => do let _ ← m.enter c params
  | .request r => do let _ ← m.serveWith depth self r
  | .newRoot => do let _ ← EvalM.act Store.newRoot
  | .note source severity text => m.note source severity text

end Operation

/-- An operation respects what its calls respect. -/
theorem Respects.operation {M N : Type → Type} [Monad M] [Monad N] [MonadLiftT EvalM M]
    [MonadLiftT EvalM N] {m m' : Machine} {d d' : Nat} {R : ∀ α : Type, M α → N α → Prop}
    {self : Call → M Answer} {self' : Call → N Answer} (h : Respects m m' d d' R)
    (hs : ∀ c, R Answer (self c) (self' c))
    (hf : ∀ v, R Answer (Machine.forceWith self m.links v) (Machine.forceWith self' m'.links v))
    (hr : R EnvId (liftM (EvalM.act Store.newRoot)) (liftM (EvalM.act Store.newRoot)))
    (hn : ∀ source severity text, R Unit (liftM (m.note source severity text))
      (liftM (m'.note source severity text)))
    (o : Operation) : R Unit (o.run m d self) (o.run m' d' self') := by
  have hq := h.evaluator.toSequential
  cases o with
  | call c => exact hq.bind (hs c) fun _ => hq.pure ()
  | enter c params => exact hq.bind (h.enter c params) fun _ => hq.pure ()
  | request r => exact hq.bind (h.native.serveWith hs hf r) fun _ => hq.pure ()
  | newRoot => exact hq.bind hr fun _ => hq.pure ()
  | note source severity text => exact hn source severity text

/-- An operation with the machine that serves it and the depth it may take. -/
structure Served where
  machine : Machine
  depth : Nat
  operation : Operation

namespace Served

/-- The store after the operation. -/
def store (o : Served) (s : Store) : Store :=
  endStore (o.operation.run o.machine o.depth (o.machine.perform o.depth) s)

/-- The operation with the calls it makes. -/
def traced (o : Served) : TraceM Unit :=
  o.operation.run o.machine o.depth (o.machine.traced o.depth)

theorem traced_plain (o : Served) :
    o.traced.plain = o.operation.run o.machine o.depth (o.machine.perform o.depth) := by
  have hs := LispCore.traced_plain o.machine o.depth
  exact (erases_respects o.machine o.depth).operation hs
    (Erases.sequential.forceWith hs rfl o.machine.links) rfl (fun _ _ _ => rfl) o.operation

end Served

namespace Session

/-- The store after the operations of a session. -/
def store (session : List Served) (s : Store) : Store := session.foldl (fun s o => o.store s) s

/-- The calls made in a session, in the order in which they end. -/
def calls : List Served → Store → List Made
  | [], _ => []
  | o :: session, s => (o.traced s).2 ++ calls session (o.store s)

end Session

namespace TraceLaw
variable {Φ : Store → List Made → Store → Prop}

theorem served (h : TraceLaw Φ) (o : Served) : Keeps Φ Unit o.traced o.traced := by
  have hs := h.traced o.machine o.depth
  exact (h.respects o.machine o.depth).operation hs
    (h.sequential.forceWith hs (h.lift fun s => .refl s) o.machine.links) (h.lift .root)
    (fun _ _ _ => h.lift fun s => .note s _ _) o.operation

/-- **What every run keeps, every session keeps.** -/
theorem session (h : TraceLaw Φ) (session : List Served) (s : Store) :
    Φ s (Session.calls session s) (Session.store session s) := by
  induction session generalizing s with
  | nil => exact h.touched (.refl s)
  | cons o session ih =>
    refine h.append ?_ (ih (o.store s))
    have ho := h.served o s
    have he : endStore (o.traced s).1 = o.store s := congrArg endStore (congrFun o.traced_plain s)
    rwa [he] at ho

end TraceLaw

/-! ## Samples -/

/-- The proper list of some values, as an expression. -/
def form (vs : List Value) : Value := vs.foldr (.pair ⟨0⟩) .nil

theorem elements_form (vs : List Value) : (form vs).elements = vs := by
  induction vs with
  | nil => rfl
  | cons v vs ih => exact congrArg (v :: ·) ih

theorem ending_form (vs : List Value) : (form vs).ending = .nil := by
  induction vs with
  | nil => rfl
  | cons v vs ih => exact ih

namespace Prelude

/-- A frame with the natives of the given names. -/
def frame (names : List String) : Bindings Value :=
  .ofList ((primitives.filter (names.contains ·.name)).map fun p =>
    (p.name, .native ⟨⟨0⟩, p.name, p.name, p.isLazy⟩))

/-- A tolerant machine with the natives of the prelude. -/
def machine : Machine where
  library := library
  strictArity := false
  level := 0
  links := 10

end Prelude

end LispCore
