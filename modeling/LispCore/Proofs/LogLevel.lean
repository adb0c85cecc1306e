import LispCore.Proofs.Reports

/-! # The level of the journal

The level decides which records are kept and nothing else. Two runs that differ in the level
go through the same stores but for the journals, so the relation between their steps has to
speak about all journals at once: whatever the journals were before, the second run adds to
its own those records that the first adds to its own and that its level keeps (`Quieter`).
Sequencing respects this, also where an answer or a stop is looked at afterwards
(`EvalM.settle`), so it is enough to check the store actions one by one. Of these only making
a record depends on the level, and none depends on the journal.

A host hands its level to the machine that evaluates, and makes records of its own
(`Unswayed`). Making an interpreter may set the level. -/
namespace LispCore

/-! ## Stores with other journals -/

namespace Store

variable (s : Store) (rs : Array Record)

theorem describeIn_withRecords (d : Nat) : (s.withRecords rs).describeIn d = s.describeIn d := by
  induction d with
  | zero => rfl
  | succ d ih =>
    rw [describeIn, ih]
    rfl

theorem describe_withRecords (d : Nat) (v : Value) :
    (s.withRecords rs).describe d v = s.describe d v := by
  rw [describe, describeIn_withRecords, describe]

theorem worded_withRecords (d : Nat) : Worded Eq Eq (s.withRecords rs) s d d where
  refl _ := rfl
  map f _ _ hxy := congrArg (Except.map f) hxy
  tag hv := congrArg Value.tag hv
  real hx := by cases hx; rfl
  describe := by
    rintro v _ rfl
    exact s.describe_withRecords rs d v
  render := by
    rintro v _ rfl
    exact s.render_withRecords rs d v

theorem message_withRecords (d : Nat) (fault : Fault) :
    fault.message (s.withRecords rs) d = fault.message s d :=
  (Fault.Rel.refl (fun _ => rfl) fault).message (s.worded_withRecords rs d)

theorem bind_withRecords (env : EnvId) (name : String) (v : Value) :
    (s.withRecords rs).bind env name v = (s.bind env name v).withRecords rs := by
  have henv : (s.withRecords rs).environment? env = s.environment? env := rfl
  unfold bind
  rw [henv]
  cases s.environment? env <;> rfl

end Store

namespace Registry
variable (r : Registry) (env : EnvId) (s : Store)

theorem records_bindAll : (r.bindAll env s).records = s.records := by
  unfold bindAll
  induction r.table.entries generalizing s with
  | nil => rfl
  | cons e entries ih => exact (ih _).trans (s.records_bind env e.1 (.native e.2))

theorem bindAll_withRecords (rs : Array Record) :
    r.bindAll env (s.withRecords rs) = (r.bindAll env s).withRecords rs := by
  unfold bindAll
  induction r.table.entries generalizing s with
  | nil => rfl
  | cons e entries ih =>
    simp only [List.foldl_cons, Store.bind_withRecords]
    exact ih _

end Registry

/-- The result with another journal. -/
def rejournal {α : Type} (rs : Array Record) :
    EStateM.Result Stop Store α → EStateM.Result Stop Store α
  | .ok a s => .ok a (s.withRecords rs)
  | .error e s => .error e (s.withRecords rs)

/-! ## Runs with other journals -/

namespace EvalM
variable {α β : Type}

/-- Goes on from how a computation ends, be it an answer or a stop. -/
def settle (x : EvalM α) (f : Except Stop α → EvalM β) : EvalM β := fun s =>
  match x s with
  | .ok a t => f (.ok a) t
  | .error e t => f (.error e) t

/-- Goes on from an answer only. -/
def onAnswer (f : α → EvalM β) : Except Stop α → EvalM β
  | .ok a => f a
  | .error e => .stop e

theorem bind_eq_settle (x : EvalM α) (f : α → EvalM β) : x >>= f = x.settle (onAnswer f) := by
  funext s
  change EStateM.bind x f s = _
  unfold EStateM.bind settle
  cases x s <;> rfl

end EvalM

/-- The computations do the same with any journals. What the second adds to its journal is
what the first adds to its own and `keep` lets through. -/
def Quieter (keep : Record → Bool) (α : Type) (x y : EvalM α) : Prop :=
  ∀ (s : Store) (rs : Array Record), ∃ made : Array Record,
    (endStore (x s)).records = s.records ++ made ∧
      y (s.withRecords rs) = rejournal (rs ++ made.filter keep) (x s)

namespace Quieter
variable {α β : Type} {keep : Record → Bool} {x y : EvalM α}

/-- A computation that makes no records and does not look at them. -/
theorem silent (hrecords : ∀ s, (endStore (x s)).records = s.records)
    (hy : ∀ s rs, y (s.withRecords rs) = rejournal rs (x s)) : Quieter keep α x y := by
  intro s rs
  exact ⟨#[], by simp [hrecords], by simp [hy]⟩

/-- What is added after some records are added to them. -/
theorem extend (h : Quieter keep α x y) {s t : Store} {made : Array Record}
    (ht : t.records = s.records ++ made) (rs : Array Record) : ∃ all : Array Record,
      (endStore (x t)).records = s.records ++ all ∧
        y (t.withRecords (rs ++ made.filter keep)) = rejournal (rs ++ all.filter keep) (x t) := by
  obtain ⟨more, hmore, hy⟩ := h t (rs ++ made.filter keep)
  refine ⟨made ++ more, ?_, ?_⟩
  · rw [hmore, ht, Array.append_assoc]
  · rw [hy, Array.filter_append Array.size_append, Array.append_assoc]

theorem settle (hx : Quieter keep α x y) {f g : Except Stop α → EvalM β}
    (hf : ∀ r, Quieter keep β (f r) (g r)) : Quieter keep β (x.settle f) (y.settle g) := by
  intro s rs
  obtain ⟨made, hmade, hy⟩ := hx s rs
  unfold EvalM.settle
  rw [hy]
  cases hr : x s with
  | ok a t =>
    rw [hr] at hmade
    exact (hf (.ok a)).extend hmade rs
  | error e t =>
    rw [hr] at hmade
    exact (hf (.error e)).extend hmade rs

theorem stop (why : Stop) : Quieter keep α (EvalM.stop why) (EvalM.stop why) :=
  silent (fun _ => rfl) fun _ _ => rfl

theorem sequential : Sequential (Quieter keep) where
  pure a := silent (fun _ => rfl) fun _ _ => rfl
  bind {_ _ x y f g} hx hf := by
    rw [EvalM.bind_eq_settle, EvalM.bind_eq_settle]
    refine hx.settle fun r => ?_
    cases r with
    | ok a => exact hf a
    | error e => exact stop e

/-- An action of the store that does not touch the journal. -/
theorem act {f : Store → α × Store} (hrecords : ∀ s, (f s).2.records = s.records)
    (hf : ∀ s rs, f (s.withRecords rs) = ((f s).1, (f s).2.withRecords rs)) :
    Quieter keep α (.act f) (.act f) := by
  refine silent hrecords fun s rs => ?_
  simp only [EvalM.act, hf]
  rfl

theorem read {f : Store → α} (hf : ∀ s rs, f (s.withRecords rs) = f s) :
    Quieter keep α (.read f) (.read f) :=
  act (fun _ => rfl) fun s rs => by rw [hf]

theorem change {f : Store → Store} (hrecords : ∀ s, (f s).records = s.records)
    (hf : ∀ s rs, f (s.withRecords rs) = (f s).withRecords rs) :
    Quieter keep Unit (.change f) (.change f) :=
  act hrecords fun s rs => by rw [hf]

theorem render (d : Nat) (v : Value) : Quieter keep String (.render d v) (.render d v) := by
  refine silent (fun s => ?_) fun s rs => ?_
  · unfold EvalM.render
    split <;> rfl
  · unfold EvalM.render
    rw [Store.render_withRecords]
    cases s.render d v <;> rfl

theorem raise (d : Nat) (fault : Fault) : Quieter keep α (.raise d fault) (.raise d fault) := by
  refine silent (fun s => ?_) fun s rs => ?_
  · unfold EvalM.raise
    split <;> rfl
  · unfold EvalM.raise
    rw [Store.message_withRecords]
    cases fault.message s d <;> rfl

theorem bound (env : EnvId) (name : String) (v : Value) :
    Quieter keep Unit (.change (·.bind env name v)) (.change (·.bind env name v)) :=
  change (fun s => s.records_bind env name v) fun s rs => s.bind_withRecords rs env name v

end Quieter

theorem Store.note_quieter {l l' : Int} (hle : effectiveLevel l ≤ effectiveLevel l') (s : Store)
    (rs : Array Record) (r : Record) : ∃ made : Array Record,
      (s.note l r).records = s.records ++ made ∧
        (s.withRecords rs).note l' r =
          (s.note l r).withRecords (rs ++ made.filter (·.kept l')) := by
  unfold Store.note
  by_cases hkept' : r.kept l' = true
  · have hkept : r.kept l = true := by
      simp only [Record.kept, decide_eq_true_eq] at hkept' ⊢
      exact Int.le_trans hle hkept'
    exact ⟨#[r], by simp [hkept], by simp [hkept, hkept', withRecords]⟩
  · by_cases hkept : r.kept l = true
    · exact ⟨#[r], by simp [hkept], by simp [hkept, hkept', withRecords]⟩
    · exact ⟨#[], by simp [hkept], by simp [hkept, hkept', withRecords]⟩

namespace Machine

/-- The machine at another level of the journal. -/
def atLevel (m : Machine) (l : Int) : Machine := { m with level := l }

section Levels
variable {m : Machine} {l : Int}

theorem note_quieter (hle : effectiveLevel m.level ≤ effectiveLevel l) (source : Source)
    (severity : Severity) (text : String) : Quieter (·.kept l) Unit (m.note source severity text)
      ((m.atLevel l).note source severity text) := by
  intro s rs
  obtain ⟨made, hmade, hnote⟩ := s.note_quieter hle rs ⟨source, severity, text⟩
  exact ⟨made, hmade, congrArg (EStateM.Result.ok ()) hnote⟩

/-- How an interpreter goes on from the end of an evaluation. -/
def reported (m : Machine) (d : Nat) (e : Value) : Except Stop Answer → EvalM Answer
  | .ok a => if a.ok then pure a else m.reportFailed d e a
  | .error .tooDeep => m.reportTooDeep d e
  | .error why => .stop why

end Levels

end Machine

/-! ## Replies -/

/-- What an operation of the evaluator answers. -/
abbrev Operation.Reply : Operation → Type
  | .call _ => Answer
  | .enter .. => EnvId × Bool
  | .request r => r.Reply
  | .newRoot => EnvId
  | .note .. => Unit

/-- Carries out an operation of the evaluator and gives its answer. -/
def Operation.serve (m : Machine) (depth : Nat) : (o : Operation) → EvalM o.Reply
  | .call c => m.perform depth c
  | .enter c params => m.enter c params
  | .request r => m.serveWith depth (m.perform depth) r
  | .newRoot => EvalM.act Store.newRoot
  | .note source severity text => m.note source severity text

theorem Operation.run_eq (m : Machine) (depth : Nat) (o : Operation) :
    o.run m depth (m.perform depth) = (do let _ ← o.serve m depth) := by
  cases o <;> rfl

namespace HostOperation

/-- What an operation answers. -/
abbrev Reply : HostOperation → Type
  | .evaluator o => o.Reply
  | .forcedValue _ => Value
  | .parent _ => EnvId
  | .configure _ => Unit
  | .newRegistry => RegistryId
  | .register .. => Native
  | .sharedRegistry => RegistryId
  | .sealRegistry _ => Unit
  | .bindAll .. => Unit
  | .populatedRoot _ => EnvId
  | .newInterpreter _ => Interpreter
  | .define .. => Unit
  | .interpret .. => Answer
  | .run .. => Value

/-- Carries out an operation and gives its answer. -/
def serve : (o : HostOperation) → HostM o.Reply
  | .evaluator o => HostM.eval fun m depth => o.serve m depth
  | .forcedValue v => HostM.eval fun m depth => m.forcedValue depth v
  | .parent env => HostM.parent env
  | .configure settings => modify fun h => { h with settings := settings }
  | .newRegistry => HostM.newRegistry
  | .register id name routine isLazy => HostM.register id name routine isLazy
  | .sharedRegistry => HostM.sharedRegistry
  | .sealRegistry id => HostM.sealRegistry id
  | .bindAll id env => HostM.bindAll id env
  | .populatedRoot id => HostM.populatedRoot id
  | .newInterpreter registry => Interpreter.new registry
  | .define i name v => i.define name v
  | .interpret i e => i.evaluate e
  | .run i e => i.run e

/-- How the operation ends: with an answer or a stop. -/
def outcome (o : HostOperation) (h : Host) : Except Stop o.Reply :=
  match o.serve h with
  | .ok a _ => .ok a
  | .error why _ => .error why

end HostOperation

/-- The host at another level and with another journal. -/
def Host.atLevel (h : Host) (l : Int) (rs : Array Record) : Host :=
  { h with level := l, store := h.store.withRecords rs }

/-- The result with the host at another level and with another journal. -/
def relevel {α : Type} (l : Int) (rs : Array Record) :
    EStateM.Result Stop Host α → EStateM.Result Stop Host α
  | .ok a h => .ok a (h.atLevel l rs)
  | .error e h => .error e (h.atLevel l rs)

/-- From `h` the computation leaves the level and adds the records `made`. At level `l` it does
the same, and adds those that this level keeps. -/
structure Follows {α : Type} (x : HostM α) (h : Host) (l : Int) (rs made : Array Record) :
    Prop where
  level : (endHost (x h)).level = h.level
  records : (endHost (x h)).store.records = h.store.records ++ made
  quiet : x (h.atLevel l rs) = relevel l (rs ++ made.filter (·.kept l)) (x h)

/-- A computation that leaves the level and that no level sways. -/
def Unswayed {α : Type} (x : HostM α) : Prop :=
  ∀ (h : Host) (l : Int) (rs : Array Record), effectiveLevel h.level ≤ effectiveLevel l →
    ∃ made, Follows x h l rs made

/-- Makes an interpreter without setting the level. -/
def Interpreter.build (registry : Option RegistryId) : HostM Interpreter := do
  raiseLimit
  let id ← chooseRegistry registry
  let env ← HostM.populatedRoot id
  pure ⟨id, env⟩

/-- Setting the host that was looked at is changing the one at hand. -/
theorem Interpreter.raiseLimit_eq : Interpreter.raiseLimit = (do
    let h ← get
    if h.settings.limit ≤ h.recursionLimit then pure ()
    else if h.settings.limit ≤ Host.largestLimit then
      modify fun g => { g with recursionLimit := h.settings.limit }
    else HostM.raise .limitRange) := by
  funext h
  unfold Interpreter.raiseLimit
  rw [HostM.get_bind, HostM.get_bind]
  split
  · rfl
  · split <;> rfl

namespace Unswayed
variable {α β : Type}

/-- A computation that makes no records and looks neither at them nor at the level. -/
theorem silent {x : HostM α} (hlevel : ∀ h, (endHost (x h)).level = h.level)
    (hrecords : ∀ h, (endHost (x h)).store.records = h.store.records)
    (hx : ∀ h l rs, x (h.atLevel l rs) = relevel l rs (x h)) : Unswayed x :=
  fun h l rs _ => ⟨#[], hlevel h, by simp [hrecords], by simp [hx]⟩

theorem pure (a : α) : Unswayed (pure a : HostM α) :=
  silent (fun _ => rfl) (fun _ => rfl) fun _ _ _ => rfl

theorem bind {x : HostM α} {f : α → HostM β} (hx : Unswayed x) (hf : ∀ a, Unswayed (f a)) :
    Unswayed (x >>= f) := by
  intro h l rs hle
  obtain ⟨made, hlevel, hrecords, hquiet⟩ := hx h l rs hle
  change ∃ all, Follows (EStateM.bind x f) h l rs all
  cases hr : x h with
  | error e h' =>
    rw [hr] at hlevel hrecords hquiet
    refine ⟨made, ?_, ?_, ?_⟩ <;> simp only [EStateM.bind, hr, hquiet]
    · exact hlevel
    · exact hrecords
    · rfl
  | ok a h' =>
    rw [hr] at hlevel hrecords hquiet
    have hlevel' : h'.level = h.level := hlevel
    have hrecords' : h'.store.records = h.store.records ++ made := hrecords
    obtain ⟨more, hmore⟩ := hf a h' l (rs ++ made.filter (·.kept l)) (hlevel' ▸ hle)
    refine ⟨made ++ more, ?_, ?_, ?_⟩ <;> simp only [EStateM.bind, hr, hquiet]
    · rw [hmore.level, hlevel']
    · rw [hmore.records, hrecords', Array.append_assoc]
    · rw [Array.filter_append Array.size_append, ← Array.append_assoc]
      exact hmore.quiet

/-- Looks at the host, though neither at its journal nor at its level. -/
theorem get_bind {f : Host → HostM α} (hf : ∀ h, Unswayed (f h))
    (hsame : ∀ h l rs, f (h.atLevel l rs) = f h) : Unswayed (get >>= f) := by
  intro h l rs hle
  obtain ⟨made, hlevel, hrecords, hquiet⟩ := hf h h l rs hle
  refine ⟨made, hlevel, hrecords, ?_⟩
  rw [HostM.get_bind, HostM.get_bind, hsame, hquiet]

theorem modify {f : Host → Host} (hlevel : ∀ h, (f h).level = h.level)
    (hrecords : ∀ h, (f h).store.records = h.store.records)
    (hf : ∀ h l rs, f (h.atLevel l rs) = (f h).atLevel l rs) : Unswayed (modify f : HostM Unit) :=
  silent hlevel hrecords fun h l rs => congrArg (EStateM.Result.ok ()) (hf h l rs)

/-- An evaluation, which is done by the machine at the level of the host. -/
theorem eval {f : Machine → Nat → EvalM α} (hf : ∀ (m : Machine) (l : Int) (d : Nat),
      effectiveLevel m.level ≤ effectiveLevel l →
      Quieter (·.kept l) α (f m d) (f (m.atLevel l) d)) : Unswayed (HostM.eval f) := by
  intro h l rs hle
  obtain ⟨made, hmade, hquiet⟩ := hf h.machine l h.recursionLimit hle h.store rs
  have hresult : f (h.atLevel l rs).machine (h.atLevel l rs).recursionLimit
      (h.atLevel l rs).store = rejournal (rs ++ made.filter (·.kept l))
        (f h.machine h.recursionLimit h.store) := hquiet
  refine ⟨made, ?_, ?_, ?_⟩
  · unfold HostM.eval
    split <;> rfl
  · rw [endHost_eval, hmade]
  · simp only [HostM.eval, hresult]
    cases f h.machine h.recursionLimit h.store <;> rfl

theorem act {f : Store → α × Store} (hrecords : ∀ s, (f s).2.records = s.records)
    (hf : ∀ s rs, f (s.withRecords rs) = ((f s).1, (f s).2.withRecords rs)) :
    Unswayed (HostM.act f) := by
  rw [HostM.act_eq_eval]
  exact eval fun _ _ _ _ => .act hrecords hf

theorem note (source : Source) (severity : Severity) (text : String) :
    Unswayed (HostM.note source severity text) := by
  have heval : HostM.note source severity text =
      HostM.eval fun m _ => m.note source severity text := rfl
  rw [heval]
  exact eval fun _ _ _ hle => Machine.note_quieter hle source severity text

theorem raise (fault : Fault) : Unswayed (HostM.raise fault : HostM α) :=
  eval fun _ _ d _ => .raise d fault

theorem parent (env : EnvId) : Unswayed (HostM.parent env) := by
  refine get_bind (fun h => ?_) fun _ _ _ => rfl
  split
  · exact pure _
  · exact raise .noParent

/-! ## Registries -/

theorem register (id : RegistryId) (name routine : String) (isLazy : Bool) :
    Unswayed (HostM.register id name routine isLazy) := by
  refine get_bind (fun h => ?_) fun _ _ _ => rfl
  dsimp only
  split
  · exact raise _
  · refine bind ?_ fun _ => bind (act (fun _ => rfl) fun _ _ => rfl) fun mark => ?_
    · unfold HostM.noteReplaced
      split
      · exact note _ _ _
      · exact pure ()
    · exact bind (modify (fun _ => rfl) (fun _ => rfl) fun _ _ _ => rfl) fun _ => pure _

theorem newRegistry : Unswayed HostM.newRegistry :=
  silent (fun _ => rfl) (fun _ => rfl) fun _ _ _ => rfl

theorem sharedRegistry : Unswayed HostM.sharedRegistry := by
  refine get_bind (fun h => ?_) fun _ _ _ => rfl
  split
  · exact pure _
  · refine bind newRegistry fun id => ?_
    refine bind (modify (fun _ => rfl) (fun _ => rfl) fun _ _ _ => rfl) fun _ => ?_
    exact bind (bind (register _ _ _ _) fun _ => pure ()) fun _ => pure _

theorem sealRegistry (id : RegistryId) : Unswayed (HostM.sealRegistry id) := by
  refine get_bind (fun h => bind ?_ fun _ => ?_) fun _ _ _ => rfl
  · unfold HostM.noteSealed
    split
    · exact pure ()
    · exact note _ _ _
  · exact modify (fun _ => rfl) (fun _ => rfl) fun _ _ _ => rfl

theorem bindAll (id : RegistryId) (env : EnvId) : Unswayed (HostM.bindAll id env) := by
  refine modify (fun _ => rfl) (fun h => (h.registry id).records_bindAll env h.store)
    fun h l rs => ?_
  exact congrArg (fun s => { h with level := l, store := s })
    ((h.registry id).bindAll_withRecords env h.store rs)

theorem populatedRoot (id : RegistryId) : Unswayed (HostM.populatedRoot id) := by
  refine bind (sealRegistry id) fun _ => ?_
  refine bind (act (f := Store.newRoot) (fun _ => rfl) fun _ _ => rfl) fun env => ?_
  exact bind (bindAll id env) fun _ => pure env

/-! ## Interpreters -/

theorem raiseLimit : Unswayed Interpreter.raiseLimit := by
  rw [Interpreter.raiseLimit_eq]
  refine get_bind (fun h => ?_) fun _ _ _ => rfl
  split
  · exact pure ()
  · split
    · exact modify (fun _ => rfl) (fun _ => rfl) fun _ _ _ => rfl
    · exact raise .limitRange

theorem built (registry : Option RegistryId) : Unswayed (Interpreter.build registry) := by
  refine bind raiseLimit fun _ => bind ?_ fun id => bind (populatedRoot id) fun env => pure _
  cases registry with
  | none => exact sharedRegistry
  | some id => exact pure id

end Unswayed

/-! ## Operations and sessions -/

namespace HostOperation
variable {h : Host} {l : Int}

end HostOperation

namespace HostSession

end HostSession

namespace Prelude

end Prelude

end LispCore
