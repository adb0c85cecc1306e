import LispCore.Proofs.Facade

/-! # Sessions of a host

All that can be asked of a host, one thing after another: the evaluator served
under the present settings and limit, environments and mappings, registries, and
interpreters. An operation that stops leaves its effects behind, and the next goes
on from there.

Apart from the evaluations that it starts, a host operation touches the store in
the ways in which evaluation does (`StoreTouched`), so what every run keeps every
session of a host keeps (`TraceLaw.hostSession`). -/
namespace LispCore

open Store (Touched)

/-! ## Operations -/

/-- What can be asked of a host. -/
inductive HostOperation where
  /-- One thing of the evaluator, environments and mappings included. -/
  | evaluator (o : Operation)
  | forcedValue (v : Value)
  | parent (env : EnvId)
  /-- A change of the settings from outside. -/
  | configure (settings : Settings)
  | newRegistry
  | register (id : RegistryId) (name routine : String) (isLazy : Bool)
  | sharedRegistry
  | sealRegistry (id : RegistryId)
  | bindAll (id : RegistryId) (env : EnvId)
  | populatedRoot (id : RegistryId)
  | newInterpreter (registry : Option RegistryId)
  | define (i : Interpreter) (name : String) (v : Value)
  | interpret (i : Interpreter) (e : Value)
  | run (i : Interpreter) (e : Value)

/-- The host that a computation leaves, whether it answers or stops. -/
def endHost {α : Type} : EStateM.Result Stop Host α → Host
  | .ok _ h => h
  | .error _ h => h

namespace HostOperation

/-- Carries out an operation, whatever it answers. -/
def perform : HostOperation → HostM Unit
  | .evaluator o => HostM.eval fun m depth => o.run m depth (m.perform depth)
  | .forcedValue v => do let _ ← HostM.eval fun m depth => m.forcedValue depth v
  | .parent env => do let _ ← HostM.parent env
  | .configure settings => modify fun h => { h with settings := settings }
  | .newRegistry => do let _ ← HostM.newRegistry
  | .register id name routine isLazy => do let _ ← HostM.register id name routine isLazy
  | .sharedRegistry => do let _ ← HostM.sharedRegistry
  | .sealRegistry id => HostM.sealRegistry id
  | .bindAll id env => HostM.bindAll id env
  | .populatedRoot id => do let _ ← HostM.populatedRoot id
  | .newInterpreter registry => do let _ ← Interpreter.new registry
  | .define i name v => i.define name v
  | .interpret i e => do let _ ← i.evaluate e
  | .run i e => do let _ ← i.run e

/-- The host after the operation. -/
def after (o : HostOperation) (h : Host) : Host := endHost (o.perform h)

/-- The calls that the operation makes, in the order in which they end. -/
def calls (o : HostOperation) (h : Host) : List Made :=
  match o with
  | .evaluator o => (Served.traced ⟨h.machine, h.recursionLimit, o⟩ h.store).2
  | .forcedValue v => (Served.traced ⟨h.machine, h.recursionLimit, .request (.force v)⟩ h.store).2
  | .interpret i e | .run i e => i.calls e h
  | _ => []

end HostOperation

namespace HostSession

/-- The host after the operations of a session. -/
def after (session : List HostOperation) (h : Host) : Host :=
  session.foldl (fun h o => o.after h) h

/-- The calls made in a session, in the order in which they end. -/
def calls : List HostOperation → Host → List Made
  | [], _ => []
  | o :: session, h => o.calls h ++ calls session (o.after h)

end HostSession

/-! ## Operations without evaluations -/

theorem endHost_eval {α : Type} (f : Machine → Nat → EvalM α) (h : Host) :
    (endHost (HostM.eval f h)).store = endStore (f h.machine h.recursionLimit h.store) := by
  unfold HostM.eval
  split <;> next hr => rw [hr]; rfl

/-- What computations keep one by one they keep one after the other. -/
theorem endHost_bind {α β : Type} {R : Host → Host → Prop}
    (htrans : ∀ {h h' h''}, R h h' → R h' h'' → R h h'') {x : HostM α} {f : α → HostM β}
    (hx : ∀ h, R h (endHost (x h))) (hf : ∀ a h, R h (endHost (f a h))) (h : Host) :
    R h (endHost ((x >>= f) h)) := by
  have hxh := hx h
  change R h (endHost (EStateM.bind x f h))
  unfold EStateM.bind
  cases hr : x h with
  | ok a h' =>
    rw [hr] at hxh
    exact htrans hxh (hf a h')
  | error e h' =>
    rw [hr] at hxh
    exact hxh

theorem HostM.get_bind {α : Type} (f : Host → HostM α) (h : Host) : (get >>= f) h = f h h := rfl

theorem HostM.parent_of_some {h : Host} {env outer : EnvId} (hp : h.store.parent? env = some outer) :
    HostM.parent env h = .ok outer h := by
  rw [HostM.parent, HostM.get_bind, hp]
  rfl

theorem HostM.parent_of_none {h : Host} {env : EnvId} (hp : h.store.parent? env = none) :
    HostM.parent env h = .error (.raised .noParent "Cannot pop past the root environment") h := by
  rw [HostM.parent, HostM.get_bind, hp]
  rfl

/-- The computation touches the store and does no more to it. -/
def StoreTouched {α : Type} (x : HostM α) : Prop := ∀ h, Touched h.store (endHost (x h)).store

namespace StoreTouched
variable {α β : Type}

theorem pure (a : α) : StoreTouched (pure a : HostM α) := fun h => .refl h.store

theorem bind {x : HostM α} {f : α → HostM β} (hx : StoreTouched x) (hf : ∀ a, StoreTouched (f a)) :
    StoreTouched (x >>= f) :=
  endHost_bind (R := fun h h' => Touched h.store h'.store) .trans hx hf

theorem get : StoreTouched (get : HostM Host) := fun h => .refl h.store

/-- A change of the host that leaves its store alone. -/
theorem modify {f : Host → Host} (hf : ∀ h, (f h).store = h.store) :
    StoreTouched (modify f : HostM Unit) := by
  intro h
  change Touched h.store (f h).store
  rw [hf h]
  exact .refl h.store

theorem act {f : Store → α × Store} (hf : ∀ s, Touched s (f s).2) : StoreTouched (HostM.act f) :=
  fun h => hf h.store

theorem note (source : Source) (severity : Severity) (text : String) :
    StoreTouched (HostM.note source severity text) := fun h => .note h.store h.level _

theorem raise (fault : Fault) : StoreTouched (HostM.raise fault : HostM α) := by
  intro h
  rw [HostM.raise, endHost_eval]
  exact touched_raise h.recursionLimit fault h.store

theorem noteReplaced (r : Registry) (name : String) :
    StoreTouched (HostM.noteReplaced r name) := by
  unfold HostM.noteReplaced
  split
  · exact note _ _ _
  · exact pure ()

theorem register (id : RegistryId) (name routine : String) (isLazy : Bool) :
    StoreTouched (HostM.register id name routine isLazy) := by
  refine bind get fun h => ?_
  dsimp only
  split
  · exact raise _
  · refine bind (noteReplaced _ name) fun _ => ?_
    refine bind (act .mark) fun mark => ?_
    exact bind (modify fun _ => rfl) fun _ => pure _

theorem newRegistry : StoreTouched HostM.newRegistry := fun h => .refl h.store

theorem sharedRegistry : StoreTouched HostM.sharedRegistry := by
  refine bind get fun h => ?_
  split
  · exact pure _
  · refine bind newRegistry fun id => bind (modify fun _ => rfl) fun _ => ?_
    exact bind (bind (register _ _ _ _) fun _ => pure ()) fun _ => pure _

theorem sealRegistry (id : RegistryId) : StoreTouched (HostM.sealRegistry id) := by
  refine bind get fun h => bind ?_ fun _ => modify fun _ => rfl
  unfold HostM.noteSealed
  split
  · exact pure ()
  · exact note _ _ _

theorem touched_bindAll (r : Registry) (env : EnvId) (s : Store) : Touched s (r.bindAll env s) := by
  unfold Registry.bindAll
  induction r.table.entries generalizing s with
  | nil => exact .refl s
  | cons e entries ih => exact (Touched.bind s env e.1 (.native e.2)).trans (ih _)

theorem bindAll (id : RegistryId) (env : EnvId) : StoreTouched (HostM.bindAll id env) :=
  fun h => touched_bindAll (h.registry id) env h.store

theorem populatedRoot (id : RegistryId) : StoreTouched (HostM.populatedRoot id) := by
  refine bind (sealRegistry id) fun _ => bind (act .root) fun env => ?_
  exact bind (bindAll id env) fun _ => pure env

theorem raiseLimit : StoreTouched Interpreter.raiseLimit := by
  intro h
  unfold Interpreter.raiseLimit
  change Touched h.store (endHost ((if h.settings.limit ≤ h.recursionLimit then _
    else if h.settings.limit ≤ Host.largestLimit then _ else _ : HostM Unit) h)).store
  split
  · exact .refl h.store
  · split
    · exact .refl h.store
    · exact raise .limitRange h

theorem newInterpreter (registry : Option RegistryId) : StoreTouched (Interpreter.new registry) := by
  refine bind (modify fun _ => rfl) fun _ => bind raiseLimit fun _ => bind ?_ fun id => ?_
  · cases registry with
    | none => exact sharedRegistry
    | some id => exact pure id
  · exact bind (populatedRoot id) fun env => pure _

theorem parent (env : EnvId) : StoreTouched (HostM.parent env) := by
  refine bind get fun h => ?_
  split
  · exact pure _
  · exact raise .noParent

end StoreTouched

/-! ## Operations with evaluations -/

/-- Whatever an interpreter reports, it does no more than touch the store. -/
theorem touched_interpret (m : Machine) (depth : Nat) (e : Value) (env : EnvId) (s : Store) :
    Touched (endStore (m.evaluateForced depth e env s))
      (endStore (m.interpret depth e env s)) := by
  rcases m.evaluateForced_cases depth e env s with ⟨a, t, hr, hok⟩ | ⟨a, t, hr⟩ | ⟨stop, t, hr, hstop⟩
  · rw [Machine.interpret_of_ok hr hok, hr]
    exact .refl t
  · have ht : endStore (m.evaluateForced depth e env s) = t := by
      rcases hr with ⟨hr, -⟩ | ⟨hr, -⟩ <;> rw [hr] <;> rfl
    rw [ht]
    cases hw : t.render depth e with
    | ok text =>
      obtain ⟨record, hi⟩ := Machine.interpret_of_text hr hw
      rw [hi]
      exact .note t m.level record
    | error why =>
      rw [Machine.interpret_of_unwritable hr hw]
      exact .refl t
  · rw [Machine.interpret_of_error hr hstop, hr]
    exact .refl t

namespace HostM
variable {α β : Type}

theorem pure_eq_eval (a : α) : (pure a : HostM α) = HostM.eval fun _ _ => pure a := rfl

theorem act_eq_eval (f : Store → α × Store) : HostM.act f = HostM.eval fun _ _ => EvalM.act f := rfl

/-- Two evaluations one after the other are one, since the first does not change the machine. -/
theorem eval_bind (f : Machine → Nat → EvalM α) (g : α → Machine → Nat → EvalM β) :
    (HostM.eval f >>= fun a => HostM.eval (g a)) =
      HostM.eval fun m depth => f m depth >>= fun a => g a m depth := by
  funext h
  change EStateM.bind (HostM.eval f) _ h = _
  cases hf : f h.machine h.recursionLimit h.store with
  | ok a s => simp only [HostM.eval, EStateM.bind, hf, EvalM.bind_ok hf]; rfl
  | error stop s => simp only [HostM.eval, EStateM.bind, hf, EvalM.bind_error hf]

end HostM

/-- What running an expression does to the store. -/
def Machine.runExpression (m : Machine) (depth : Nat) (e : Value) (env : EnvId) : EvalM Value := do
  let a ← m.interpret depth e env
  if a.ok then pure a.value else EvalM.raise depth (.evaluationFailed e)

theorem Interpreter.run_eq (i : Interpreter) (e : Value) :
    i.run e = HostM.eval fun m depth => m.runExpression depth e i.env := by
  have hbranch : ∀ a : Answer,
      (if a.ok then pure a.value else HostM.raise (.evaluationFailed e) : HostM Value) =
        HostM.eval fun _ depth =>
          if a.ok then pure a.value else EvalM.raise depth (.evaluationFailed e) := by
    intro a
    split <;> rfl
  simp only [Interpreter.run, Interpreter.evaluate, hbranch, HostM.eval_bind]
  rfl

/-- A result that is dropped changes nothing. -/
theorem endHost_drop {α : Type} (x : HostM α) (h : Host) :
    endHost ((do let _ ← x : HostM Unit) h) = endHost (x h) := by
  change endHost (EStateM.bind x _ h) = _
  unfold EStateM.bind
  cases x h <;> rfl

namespace TraceLaw
variable {Φ : Store → List Made → Store → Prop}

theorem ofTouched (h : TraceLaw Φ) {x : HostM Unit} (hx : StoreTouched x) (host : Host) :
    Φ host.store [] (endHost (x host)).store :=
  h.touched (hx host)

/-- An operation of the evaluator, served by the machine of the host. -/
theorem hostServed (h : TraceLaw Φ) (host : Host) (o : Operation) :
    Φ host.store (Served.traced ⟨host.machine, host.recursionLimit, o⟩ host.store).2
      (Served.store ⟨host.machine, host.recursionLimit, o⟩ host.store) := by
  have ho := h.served ⟨host.machine, host.recursionLimit, o⟩ host.store
  rwa [← TraceM.plain, Served.traced_plain] at ho

theorem evaluateForced (h : TraceLaw Φ) (m : Machine) (depth : Nat) (e : Value) (env : EnvId)
    (s : Store) :
    Φ s (m.tracedForced depth e env s).2 (endStore (m.evaluateForced depth e env s)) := by
  have hs := h.traced m depth
  have hrun := Machine.forcedWith_respects h.sequential hs
    (h.sequential.forceWith hs (h.lift fun s => .refl s) m.links) e env s
  rwa [← Machine.tracedForced, Machine.tracedForced_fst] at hrun

theorem interpreted (h : TraceLaw Φ) (host : Host) (i : Interpreter) (e : Value) :
    Φ host.store (i.calls e host) (endHost (i.evaluate e host)).store := by
  have hforced := h.evaluateForced host.machine host.recursionLimit e i.env host.store
  have hreport := touched_interpret host.machine host.recursionLimit e i.env host.store
  have hall := h.append hforced (h.touched hreport)
  rw [List.append_nil] at hall
  rwa [Interpreter.evaluate, endHost_eval]

/-- **What every run keeps, every operation of a host keeps.** -/
theorem hostOperation (h : TraceLaw Φ) (o : HostOperation) (host : Host) :
    Φ host.store (o.calls host) (o.after host).store := by
  unfold HostOperation.after
  cases o with
  | evaluator o =>
    rw [HostOperation.perform, endHost_eval]
    exact h.hostServed host o
  | forcedValue v =>
    rw [HostOperation.perform, endHost_drop, endHost_eval]
    have hforce := h.hostServed host (.request (.force v))
    have hstore : endStore (host.machine.forcedValue host.recursionLimit v host.store) =
        Served.store ⟨host.machine, host.recursionLimit, .request (.force v)⟩ host.store := by
      change endStore (EStateM.bind (host.machine.force host.recursionLimit v) _ host.store) =
        endStore (EStateM.bind (host.machine.force host.recursionLimit v) _ host.store)
      unfold EStateM.bind
      cases host.machine.force host.recursionLimit v host.store <;> rfl
    rw [hstore]
    exact hforce
  | parent env => exact h.ofTouched (.bind (.parent env) fun _ => .pure ()) host
  | configure settings => exact h.ofTouched (.modify fun _ => rfl) host
  | newRegistry => exact h.ofTouched (.bind .newRegistry fun _ => .pure ()) host
  | register => exact h.ofTouched (.bind (.register _ _ _ _) fun _ => .pure ()) host
  | sharedRegistry => exact h.ofTouched (.bind .sharedRegistry fun _ => .pure ()) host
  | sealRegistry id => exact h.ofTouched (.sealRegistry id) host
  | bindAll id env => exact h.ofTouched (.bindAll id env) host
  | populatedRoot id => exact h.ofTouched (.bind (.populatedRoot id) fun _ => .pure ()) host
  | newInterpreter r => exact h.ofTouched (.bind (.newInterpreter r) fun _ => .pure ()) host
  | define i name v => exact h.touched (.bind host.store i.env name v)
  | interpret i e =>
    rw [HostOperation.perform, endHost_drop]
    exact h.interpreted host i e
  | run i e =>
    rw [HostOperation.perform, endHost_drop]
    have heval := h.interpreted host i e
    unfold Interpreter.run
    change Φ host.store (i.calls e host) (endHost (EStateM.bind (i.evaluate e) _ host)).store
    unfold EStateM.bind
    cases hr : i.evaluate e host with
    | ok a host' =>
      rw [hr] at heval
      by_cases hok : a.ok = true
      · simp only [hok, if_true]
        exact heval
      · -- the fault is raised in the host that the evaluation left
        have hraise := StoreTouched.raise (α := Value) (.evaluationFailed e) host'
        have hall := h.append heval (h.touched hraise)
        rw [List.append_nil] at hall
        simp only [hok]
        exact hall
    | error stop host' =>
      rw [hr] at heval
      exact heval

/-- **What every run keeps, every session of a host keeps.** -/
theorem hostSession (h : TraceLaw Φ) (session : List HostOperation) (host : Host) :
    Φ host.store (HostSession.calls session host) (HostSession.after session host).store := by
  induction session generalizing host with
  | nil => exact h.touched (.refl host.store)
  | cons o session ih => exact h.append (h.hostOperation o host) (ih (o.after host))

end TraceLaw

/-- A host with the natives of the prelude to which nothing has happened. -/
def Prelude.freshHost : Host where
  library := library
  recursionLimit := 40
  links := 10

end LispCore
