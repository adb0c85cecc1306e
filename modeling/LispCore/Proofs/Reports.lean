import LispCore.Proofs.Facade
import LispCore.Proofs.HostSession
import LispCore.Proofs.OwnStops

/-! # The contract of an interpreter

An interpreter offers the same evaluation in two forms. `evaluate` answers with a flag
and `run` turns a failure into an error that names the expression; what they do to the
host is the same, and so is what they raise otherwise. A value that comes with success is
no promise, and every failure is reported in the journal once, by the interpreter and
nobody else (`interpreter_contract`).

For the last part one has to know that nothing inside an evaluation makes records in the
interpreter's name. The evaluator and the application of procedures make records in
theirs, and that is all that is added while calls are made (`Store.Logged`). -/
namespace LispCore

namespace Store
variable {s t u : Store}

/-! ## Records of a run -/

/-- The journal has grown by records that no interpreter made. -/
def Logged (s t : Store) : Prop :=
  ∃ more, t.records.toList = s.records.toList ++ more ∧ ∀ r ∈ more, r.source ≠ .interpreter

namespace Logged

theorem of_eq (h : t.records = s.records) : s.Logged t := ⟨[], by simp [h], by simp⟩

theorem trans (h : s.Logged t) (h' : t.Logged u) : s.Logged u := by
  obtain ⟨more, ht, hmore⟩ := h
  obtain ⟨more', hu, hmore'⟩ := h'
  refine ⟨more ++ more', ?_, ?_⟩
  · rw [hu, ht, List.append_assoc]
  · intro r hr
    exact (List.mem_append.mp hr).elim (hmore r) (hmore' r)

end Logged

theorem records_note (s : Store) (level : Int) (r : Record) :
    (s.note level r).records.toList =
      s.records.toList ++ if r.kept level then [r] else [] := by
  unfold note
  split <;> simp

theorem Logged.note (s : Store) (level : Int) {r : Record} (h : r.source ≠ .interpreter) :
    s.Logged (s.note level r) := by
  refine ⟨_, records_note s level r, fun r' hr' => ?_⟩
  split at hr'
  · rwa [List.mem_singleton.mp hr']
  · cases hr'

theorem records_bind (s : Store) (env : EnvId) (name : String) (v : Value) :
    (s.bind env name v).records = s.records := by
  unfold Store.bind
  split <;> rfl

/-- The same store with another journal. -/
def withRecords (s : Store) (records : Array Record) : Store := { s with records := records }

/-- The journal takes no part in the text of a value. -/
theorem renderAt_withRecords (s : Store) (rs : Array Record) (d : Nat) :
    (s.withRecords rs).renderAt d = s.renderAt d := by
  induction d with
  | zero => rfl
  | succ d ih =>
    rw [renderAt, ih]
    rfl

theorem render_withRecords (s : Store) (rs : Array Record) (d : Nat) (v : Value) :
    (s.withRecords rs).render d v = s.render d v := by
  rw [render, renderAt_withRecords, render]

theorem render_note (s : Store) (level : Int) (r : Record) (d : Nat) (v : Value) :
    (s.note level r).render d v = s.render d v := by
  unfold note
  split
  · exact s.render_withRecords (s.records.push r) d v
  · rfl

end Store

open Store (Logged)

/-- A computation adds to the journal what an evaluation may add. -/
def Logs (α : Type) (x _y : EvalM α) : Prop := ∀ s : Store, s.Logged (endStore (x s))

namespace Logs
variable {α : Type}

theorem of_unchanged {x : EvalM α} (h : ∀ s, (endStore (x s)).records = s.records) :
    Logs α x x :=
  fun s => .of_eq (h s)

theorem sequential : Sequential Logs where
  pure _ := fun _ => .of_eq rfl
  bind {_ _ x _ f _} hx hf := by
    intro s
    have hxs := hx s
    cases h : x s with
    | ok a t =>
      rw [h] at hxs
      rw [EvalM.bind_ok h]
      exact hxs.trans (hf a t)
    | error e t =>
      rw [h] at hxs
      rwa [EvalM.bind_error h]

theorem render (d : Nat) (v : Value) : Logs String (EvalM.render d v) (EvalM.render d v) := by
  refine of_unchanged fun s => ?_
  unfold EvalM.render
  split <;> rfl

theorem evaluatorAction {m : Machine} {d : Nat} {x y : EvalM α}
    (h : EvaluatorAction m m d d α x y) : Logs α x y := by
  cases h with
  | render v => exact render d v
  | note text => exact fun s => .note s _ (by simp)
  | lookup | newPair | newPromise => exact of_unchanged fun _ => rfl

theorem nativeAction {m : Machine} {d : Nat} {x y : EvalM α}
    (h : NativeAction m m d d α x y) : Logs α x y := by
  cases h with
  | report p a =>
    intro s
    unfold Machine.reportFailure
    split
    · exact .of_eq rfl
    · exact .note s _ (by simp)
  | raise α fault =>
    refine of_unchanged fun s => ?_
    unfold EvalM.raise
    split <;> rfl
  | bind env name v => exact of_unchanged fun s => s.records_bind env name v
  | render v => exact render d v
  | _ => exact of_unchanged fun _ => rfl

theorem enter (m : Machine) (c : Closure) (params : Value) :
    Logs (EnvId × Bool) (m.enter c params) (m.enter c params) := by
  refine sequential.bind (of_unchanged fun _ => rfl) fun env => ?_
  split
  · exact sequential.bind (fun s => .note s _ (by simp)) fun _ => sequential.pure _
  · exact sequential.pure _

theorem respects (m : Machine) (d : Nat) : Respects m m d d Logs where
  evaluator := ⟨sequential, evaluatorAction⟩
  enter := enter m
  native := ⟨sequential, rfl, nativeAction⟩

/-- **No call makes records in the name of an interpreter.** -/
theorem perform (m : Machine) (d : Nat) (c : Call) :
    Logs Answer (m.perform d c) (m.perform d c) := by
  induction d generalizing c with
  | zero => exact of_unchanged fun _ => rfl
  | succ d ih =>
    refine (respects m d).step ih (sequential.forceWith ih (of_unchanged fun _ => rfl) m.links)
      (fun id => ?_) c
    exact sequential.forceOnceWith ih id (of_unchanged fun _ => rfl)
      fun a => of_unchanged fun _ => rfl

theorem evaluateForced (m : Machine) (d : Nat) (e : Value) (env : EnvId) :
    Logs Answer (m.evaluateForced d e env) (m.evaluateForced d e env) :=
  Machine.forcedWith_respects sequential (perform m d)
    (sequential.forceWith (perform m d) (of_unchanged fun _ => rfl) m.links) e env

end Logs

/-! ## Forced values -/

namespace Machine
variable {m : Machine} {d : Nat} {e : Value} {env : EnvId} {s t u : Store} {a : Answer}

/-- A chain of promises that is left with success is left with something else. -/
theorem forceWith_ne_promise {self : Call → EvalM Answer} {links : Nat} {v : Value}
    (h : forceWith self links v s = .ok a t) (hok : a.ok = true) (id : PromiseId) :
    a.value ≠ .promise id := by
  induction links generalizing v s with
  | zero =>
    cases v with
    | promise => cases h
    | _ =>
      cases h
      exact nofun
  | succ links ih =>
    cases v with
    | promise id' =>
      obtain ⟨b, u, -, hrest⟩ := EvalM.bind_eq_ok h
      split at hrest
      · exact ih hrest
      · next hno =>
        cases hrest
        exact absurd hok hno
    | _ =>
      cases h
      exact nofun

theorem evaluateForced_ne_promise (h : m.evaluateForced d e env s = .ok a t) (hok : a.ok = true)
    (id : PromiseId) : a.value ≠ .promise id := by
  obtain ⟨b, u, -, hrest⟩ := EvalM.bind_eq_ok h
  split at hrest
  · exact forceWith_ne_promise hrest hok id
  · next hno =>
    cases hrest
    exact absurd hok hno

/-! ## The two forms -/

/-- How an interpreter comes to its answer. -/
theorem interpret_eq_ok (h : m.interpret d e env s = .ok a u) :
    (a.ok = true ∧ m.evaluateForced d e env s = .ok a u) ∨
      (a.ok = false ∧ ∃ t text, t.render d e = .ok text ∧
        ((m.evaluateForced d e env s = .ok a t ∧
            u = t.note m.level ⟨.interpreter, .warning, "Evaluation failed: " ++ text⟩) ∨
          (m.evaluateForced d e env s = .error .tooDeep t ∧ a = .failure ∧
            u = t.note m.level
              ⟨.interpreter, .error, "Recursion limit exceeded evaluating " ++ text⟩))) := by
  rcases m.evaluateForced_cases d e env s with
    ⟨b, t, hr, hok⟩ | ⟨b, t, hr⟩ | ⟨stop, t, hr, hstop⟩
  · rw [interpret_of_ok hr hok] at h
    cases h
    exact .inl ⟨hok, hr⟩
  · cases hw : t.render d e with
    | error why =>
      rw [interpret_of_unwritable hr hw] at h
      cases h
    | ok text =>
      rcases hr with ⟨hr, hno⟩ | ⟨hr, rfl⟩
      · rw [interpret_of_failure hr hno hw] at h
        cases h
        exact .inr ⟨hno, t, text, hw, .inl ⟨hr, rfl⟩⟩
      · rw [interpret_of_tooDeep hr hw] at h
        cases h
        exact .inr ⟨rfl, t, text, hw, .inr ⟨hr, rfl, rfl⟩⟩
  · rw [interpret_of_error hr hstop] at h
    cases h

/-- An interpreter that answers with a failure has written the text of the expression, and
it can be written again. -/
theorem render_of_interpret (h : m.interpret d e env s = .ok a u) (hno : a.ok = false) :
    ∃ text, u.render d e = .ok text := by
  rcases interpret_eq_ok h with ⟨hok, -⟩ | ⟨-, t, text, hw, ⟨-, rfl⟩ | ⟨-, -, rfl⟩⟩
  · rw [hno] at hok
    cases hok
  · exact ⟨text, by rw [Store.render_note, hw]⟩
  · exact ⟨text, by rw [Store.render_note, hw]⟩

theorem runExpression_of_success {v : Value} (h : m.interpret d e env s = .ok (.success v) u) :
    m.runExpression d e env s = .ok v u :=
  EvalM.bind_ok h

theorem runExpression_of_stop {stop : Stop} (h : m.interpret d e env s = .error stop u) :
    m.runExpression d e env s = .error stop u :=
  EvalM.bind_error h

theorem runExpression_of_failure (h : m.interpret d e env s = .ok a u) (hno : a.ok = false)
    {text : String} (ht : u.render d e = .ok text) : m.runExpression d e env s =
      .error (.raised (.evaluationFailed e) ("Evaluation failed: " ++ text)) u := by
  have hmessage : (Fault.evaluationFailed e).message u d = .ok ("Evaluation failed: " ++ text) := by
    simp only [Fault.message, ht]
    rfl
  have hraise : (EvalM.raise d (.evaluationFailed e) : EvalM Value) u =
      .error (.raised (.evaluationFailed e) ("Evaluation failed: " ++ text)) u := by
    simp only [EvalM.raise, hmessage]
  refine (EvalM.bind_ok h).trans ?_
  rw [hno]
  exact hraise

theorem runExpression_ok_iff {v : Value} :
    m.runExpression d e env s = .ok v u ↔ m.interpret d e env s = .ok (.success v) u := by
  refine ⟨fun h => ?_, runExpression_of_success⟩
  cases hi : m.interpret d e env s with
  | error stop t =>
    rw [runExpression_of_stop hi] at h
    cases h
  | ok b t =>
    obtain ⟨w, ok⟩ := b
    cases ok with
    | true =>
      rw [runExpression_of_success hi] at h
      cases h
      rfl
    | false =>
      obtain ⟨text, ht⟩ := render_of_interpret hi rfl
      rw [runExpression_of_failure hi rfl ht] at h
      cases h

theorem runExpression_error_iff {stop : Stop} :
    m.runExpression d e env s = .error stop u ↔ m.interpret d e env s = .error stop u ∨
      ∃ a text, m.interpret d e env s = .ok a u ∧ a.ok = false ∧ u.render d e = .ok text ∧
        stop = .raised (.evaluationFailed e) ("Evaluation failed: " ++ text) := by
  constructor
  · intro h
    cases hi : m.interpret d e env s with
    | error stop' t =>
      rw [runExpression_of_stop hi] at h
      cases h
      exact .inl rfl
    | ok b t =>
      obtain ⟨w, ok⟩ := b
      cases ok with
      | true =>
        rw [runExpression_of_success hi] at h
        cases h
      | false =>
        obtain ⟨text, ht⟩ := render_of_interpret hi rfl
        rw [runExpression_of_failure hi rfl ht] at h
        cases h
        exact .inr ⟨_, text, rfl, rfl, ht, rfl⟩
  · rintro (h | ⟨a, text, h, hno, ht, rfl⟩)
    · exact runExpression_of_stop h
    · exact runExpression_of_failure h hno ht

/-! ## The journal -/

/-- Success leaves no record of an interpreter, and a failure leaves one, after all that the
evaluation has noted. -/
theorem interpret_records (h : m.interpret d e env s = .ok a u) :
    ∃ during, (∀ r ∈ during, r.source ≠ .interpreter) ∧
      ((a.ok = true ∧ u.records.toList = s.records.toList ++ during) ∨
        (a.ok = false ∧ ∃ report : Record, report.source = .interpreter ∧
          u.records.toList = s.records.toList ++ during ++
            (if report.kept m.level then [report] else []) ∧
          (((∃ t, m.evaluateForced d e env s = .error .tooDeep t) ∧ report.severity = .error ∧
              a.value = .nil) ∨
            ((∃ t, m.evaluateForced d e env s = .ok a t) ∧ report.severity = .warning)))) := by
  have hlogs := Logs.evaluateForced m d e env s
  rcases interpret_eq_ok h with ⟨hok, hr⟩ | ⟨hno, t, text, -, ⟨hr, rfl⟩ | ⟨hr, rfl, rfl⟩⟩
  · rw [hr] at hlogs
    obtain ⟨during, hrecords, hduring⟩ := hlogs
    exact ⟨during, hduring, .inl ⟨hok, hrecords⟩⟩
  · rw [hr] at hlogs
    obtain ⟨during, hrecords, hduring⟩ := hlogs
    refine ⟨during, hduring, .inr ⟨hno,
      ⟨.interpreter, .warning, "Evaluation failed: " ++ text⟩, rfl, ?_, .inr ⟨⟨t, hr⟩, rfl⟩⟩⟩
    rw [Store.records_note, show t.records.toList = _ from hrecords]
  · rw [hr] at hlogs
    obtain ⟨during, hrecords, hduring⟩ := hlogs
    refine ⟨during, hduring, .inr ⟨hno,
      ⟨.interpreter, .error, "Recursion limit exceeded evaluating " ++ text⟩, rfl, ?_,
      .inl ⟨⟨t, hr⟩, rfl, rfl⟩⟩⟩
    rw [Store.records_note, show t.records.toList = _ from hrecords]

end Machine

/-! ## The interpreter -/

/-- Natives leave one error to interpreters: that an evaluation failed. -/
def Conduct.noFailing : Conduct where
  asks _ := True
  hears _ _ := True
  raises fault := ∀ e, fault ≠ .evaluationFailed e

/-- No native of the library raises the error that an evaluation failed. -/
def Library.NoFailing (library : Library) : Prop :=
  ∀ key params env, (library key params env).Obeys .noFailing fun _ => True

theorem Library.NoFailing.extend {library : Library} (h : library.NoFailing) :
    (Bootstrap.extend library).NoFailing := by
  intro key params env
  unfold Bootstrap.extend
  split
  · cases params with
    | pair => exact ⟨trivial, fun _ _ => trivial⟩
    | _ => exact trivial
  · exact h key params env

theorem Conduct.noFailing_stops {e : Value} {text : String} :
    ¬ Conduct.noFailing.Stops (.raised (.evaluationFailed e) text) := by
  rintro (⟨fault, text', hraises, hstop⟩ | ⟨why, hstop⟩ | hstop)
  · cases hstop
    exact hraises e rfl
  · cases why <;> cases hstop
  · cases hstop

/-- What runs on the store of a host gives there, it gives to the host. -/
theorem HostM.eval_eq_ok_iff {α : Type} {f : Machine → Nat → EvalM α} {h h' : Host} {a : α} :
    HostM.eval f h = .ok a h' ↔
      ∃ s, f h.machine h.recursionLimit h.store = .ok a s ∧ h' = { h with store := s } := by
  unfold HostM.eval
  split
  · next b s hf => simp [hf, eq_comm]
  · next stop s hf => simp [hf]

theorem HostM.eval_eq_error_iff {α : Type} {f : Machine → Nat → EvalM α} {h h' : Host}
    {stop : Stop} : HostM.eval f h = .error stop h' ↔
      ∃ s, f h.machine h.recursionLimit h.store = .error stop s ∧ h' = { h with store := s } := by
  unfold HostM.eval
  split
  · next b s hf => simp [hf]
  · next stop' s hf => simp [hf, eq_comm]

namespace Interpreter
variable {i : Interpreter} {e : Value} {h h' : Host}

/-- Natives that leave the error alone do not bring it about. -/
theorem evaluate_ne_failed (hlib : h.library.NoFailing) {e' : Value} {text : String} :
    i.evaluate e h ≠ .error (.raised (.evaluationFailed e') text) h' := by
  intro herror
  rcases blame_of_evaluate herror nofun with
    ⟨c, hc, ⟨p, params, env, hcall⟩, hstopped⟩ | hdigits | ⟨hloop, -⟩
  · have hstep := h.machine.tracedForced_genuine h.recursionLimit e i.env h.store c hc
    have hstops := hstep.conduct hcall hstopped.inner hstopped.outcome (C := .noFailing)
      (fun _ _ => trivial) (hlib.extend p.routine params env)
    exact Conduct.noFailing_stops hstops
  · cases hdigits
  · cases hloop

theorem run_eq_ok_iff {v : Value} :
    i.run e h = .ok v h' ↔ i.evaluate e h = .ok (.success v) h' := by
  rw [run_eq, evaluate, HostM.eval_eq_ok_iff, HostM.eval_eq_ok_iff]
  simp only [Machine.runExpression_ok_iff]

theorem run_eq_error_iff {stop : Stop} :
    i.run e h = .error stop h' ↔ i.evaluate e h = .error stop h' ∨
      ∃ a text, i.evaluate e h = .ok a h' ∧ a.ok = false ∧
        h'.store.render h.recursionLimit e = .ok text ∧
        stop = .raised (.evaluationFailed e) ("Evaluation failed: " ++ text) := by
  rw [run_eq, evaluate, HostM.eval_eq_error_iff, HostM.eval_eq_error_iff]
  simp only [Machine.runExpression_error_iff, HostM.eval_eq_ok_iff]
  constructor
  · rintro ⟨s, hs | ⟨a, text, ha, hno, ht, hstop⟩, rfl⟩
    · exact .inl ⟨s, hs, rfl⟩
    · exact .inr ⟨a, text, ⟨s, ha, rfl⟩, hno, ht, hstop⟩
  · rintro (⟨s, hs, rfl⟩ | ⟨a, text, ⟨s, ha, rfl⟩, hno, ht, hstop⟩)
    · exact ⟨s, .inl hs, rfl⟩
    · exact ⟨s, .inr ⟨a, text, ha, hno, ht, hstop⟩, rfl⟩

end Interpreter

/-- **The contract of an interpreter.** Whatever the state of the host and the expression:
a value that comes with success is no promise. `run` gives a value and a host exactly when
`evaluate` gives them with success. What `run` raises is what `evaluate` raises, or it is
the error that just this expression failed, with its text, where `evaluate` answers without
success and leaves the same host; if natives leave this error alone, there is no other way
to it. With success `evaluate` leaves no record of an interpreter, and without
success exactly one, as far as the level keeps it: an error with the value nil if the
depth was exhausted, and otherwise a warning. -/
theorem interpreter_contract (i : Interpreter) (e : Value) (h : Host) :
    (∀ v h', i.evaluate e h = .ok (.success v) h' → ∀ id, v ≠ .promise id) ∧
      (∀ v h', i.run e h = .ok v h' ↔ i.evaluate e h = .ok (.success v) h') ∧
      (∀ stop h', i.run e h = .error stop h' ↔ i.evaluate e h = .error stop h' ∨
        ∃ a text, i.evaluate e h = .ok a h' ∧ a.ok = false ∧
          h'.store.render h.recursionLimit e = .ok text ∧
          stop = .raised (.evaluationFailed e) ("Evaluation failed: " ++ text)) ∧
      (h.library.NoFailing → ∀ e' h',
        (∃ text, i.run e h = .error (.raised (.evaluationFailed e') text) h') ↔
          e' = e ∧ ∃ a, i.evaluate e h = .ok a h' ∧ a.ok = false) ∧
      ∀ a h', i.evaluate e h = .ok a h' →
        ∃ during, (∀ r ∈ during, r.source ≠ .interpreter) ∧
          ((a.ok = true ∧ h'.store.records.toList = h.store.records.toList ++ during) ∨
            (a.ok = false ∧ ∃ report : Record, report.source = .interpreter ∧
              h'.store.records.toList = h.store.records.toList ++ during ++
                (if report.kept h.level then [report] else []) ∧
              (((∃ s, i.outcome e h = .error .tooDeep s) ∧ report.severity = .error ∧
                  a.value = .nil) ∨
                ((∃ s, i.outcome e h = .ok a s) ∧ report.severity = .warning)))) := by
  refine ⟨fun v h' hv id => ?_, fun v h' => Interpreter.run_eq_ok_iff,
    fun stop h' => Interpreter.run_eq_error_iff, fun hlib e' h' => ⟨?_, ?_⟩, fun a h' ha => ?_⟩
  · obtain ⟨s, hs, -⟩ := HostM.eval_eq_ok_iff.mp hv
    rcases Machine.interpret_eq_ok hs with ⟨hok, hr⟩ | ⟨hno, -⟩
    · exact Machine.evaluateForced_ne_promise hr hok id
    · cases hno
  · rintro ⟨text, hrun⟩
    rcases Interpreter.run_eq_error_iff.mp hrun with herror | ⟨a, text', ha, hno, -, hstop⟩
    · exact absurd herror (Interpreter.evaluate_ne_failed hlib)
    · cases hstop
      exact ⟨rfl, a, ha, hno⟩
  · rintro ⟨rfl, a, ha, hno⟩
    obtain ⟨s, hs, rfl⟩ := HostM.eval_eq_ok_iff.mp ha
    obtain ⟨text, ht⟩ := Machine.render_of_interpret hs hno
    exact ⟨_, Interpreter.run_eq_error_iff.mpr (.inr ⟨a, text, ha, hno, ht, rfl⟩)⟩
  · obtain ⟨s, hs, rfl⟩ := HostM.eval_eq_ok_iff.mp ha
    exact Machine.interpret_records hs

namespace Prelude

/-- The native that puts its argument off, and no other. -/
def delaying : Library := fun key => if key = "delay" then delay else fun _ _ => pure .failure

theorem delaying_noFailing : delaying.NoFailing := by
  intro key params env
  unfold delaying
  split
  · refine .bind (.arguments (E := fun _ => True) trivial nofun) fun args _ => ?_
    split
    · exact .bind (.request (E := fun _ => True) trivial fun _ _ => trivial) fun _ _ => trivial
    · trivial
  · trivial

/-- A host with the native that puts off, a number, and a closure that calls itself without
end. -/
def delayingHost : Host where
  library := delaying
  store :=
    { mappings := #[⟨[("delay", .native ⟨⟨0⟩, "delay", "delay", true⟩), ("two", .integer 2),
        ("again", .closure ⟨1⟩ [] (form [.symbol "again"]) ⟨0⟩ false)]⟩]
      environments := #[⟨⟨0⟩, none⟩]
      marks := 2 }
  recursionLimit := 4
  links := 10

end Prelude

/-- The three ends of an evaluation. The answer to `(delay two)` is a promise, which is forced
before it is given. A name that nothing binds fails with a warning. The call `(again)` goes too
deep, which is reported as an error. In the last two cases `run` raises the error about just that
expression. -/
theorem delayingHost_contract :
    Prelude.delayingHost.library.NoFailing ∧
      (∃ h', Interpreter.run ⟨⟨0⟩, ⟨0⟩⟩ (form [.symbol "delay", .symbol "two"])
            Prelude.delayingHost = .ok (.integer 2) h' ∧
          h'.store.promises.size = 1 ∧ h'.store.records = #[]) ∧
      (∃ text h', Interpreter.run ⟨⟨0⟩, ⟨0⟩⟩ (.symbol "x") Prelude.delayingHost =
            .error (.raised (.evaluationFailed (.symbol "x")) text) h' ∧
          h'.store.records = #[⟨.interpreter, .warning, "Evaluation failed: x"⟩]) ∧
      ∃ text h', Interpreter.run ⟨⟨0⟩, ⟨0⟩⟩ (form [.symbol "again"]) Prelude.delayingHost =
            .error (.raised (.evaluationFailed (form [.symbol "again"])) text) h' ∧
          h'.store.records =
            #[⟨.interpreter, .error, "Recursion limit exceeded evaluating (again _)"⟩] := by
  have hlib : Prelude.delayingHost.library.NoFailing := Prelude.delaying_noFailing
  refine ⟨hlib, ?_, ?_, ?_⟩
  · obtain ⟨-, hgives, -⟩ := interpreter_contract ⟨⟨0⟩, ⟨0⟩⟩
      (form [.symbol "delay", .symbol "two"]) Prelude.delayingHost
    exact ⟨_, (hgives (.integer 2) _).mpr rfl, rfl, rfl⟩
  · obtain ⟨-, -, -, hraises, -⟩ :=
      interpreter_contract ⟨⟨0⟩, ⟨0⟩⟩ (.symbol "x") Prelude.delayingHost
    obtain ⟨text, hrun⟩ := (hraises hlib (.symbol "x") _).mpr ⟨rfl, .failure, rfl, rfl⟩
    exact ⟨text, _, hrun, rfl⟩
  · obtain ⟨-, -, -, hraises, -⟩ :=
      interpreter_contract ⟨⟨0⟩, ⟨0⟩⟩ (form [.symbol "again"]) Prelude.delayingHost
    obtain ⟨text, hrun⟩ := (hraises hlib _ _).mpr ⟨rfl, .failure, rfl, rfl⟩
    exact ⟨text, _, hrun, rfl⟩

end LispCore
