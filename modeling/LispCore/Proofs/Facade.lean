import LispCore.Interpreter
import LispCore.Proofs.Adequacy
import LispCore.Proofs.ForceLoop

/-! # What an interpreter lets through

An interpreter evaluates, forces the value, and answers a failure where the
evaluation went too deep. What comes out of it is therefore an answer or a stop
of the evaluation that is not about depth, with one exception: failures are
reported, a report quotes the expression, and writing the quotation may go too
deep in its turn. Nothing catches this (`evaluate_tooDeep_iff`), and a promise
that is its own result makes it happen at every limit (`tooDeep_escapes`).

An evaluation can also fail to end. Then the loop of a native, or the one with
which the interpreter forces the value, follows promises without end
(`force_leaves_iff`); a promise that is its own result is again enough
(`knot_never_leaves`). -/
namespace LispCore

/-! ## The calls of an interpreter -/

namespace Machine

/-- The evaluation of an interpreter, given how calls are made. -/
def forcedWith {M : Type → Type} [Monad M] [MonadLiftT EvalM M] (self : Call → M Answer)
    (links : Nat) (e : Value) (env : EnvId) : M Answer := do
  let a ← self (.evaluate e env)
  if a.ok then forceWith self links a.value else pure a

/-- The evaluation of an interpreter, with the calls it makes. -/
def tracedForced (m : Machine) (depth : Nat) (e : Value) (env : EnvId) : TraceM Answer :=
  forcedWith (m.traced depth) m.links e env

/-- The evaluation respects what its calls and its loop respect. -/
theorem forcedWith_respects {M N : Type → Type} [Monad M] [Monad N] [MonadLiftT EvalM M]
    [MonadLiftT EvalM N] {R : ∀ α : Type, M α → N α → Prop} (h : Sequential R)
    {self : Call → M Answer} {self' : Call → N Answer} (hs : ∀ c, R Answer (self c) (self' c))
    {links : Nat} (hf : ∀ v, R Answer (forceWith self links v) (forceWith self' links v))
    (e : Value) (env : EnvId) :
    R Answer (forcedWith self links e env) (forcedWith self' links e env) := by
  refine h.bind (hs _) fun a => ?_
  split
  · exact hf a.value
  · exact h.pure a

section Traced
variable (m : Machine) (depth : Nat) (e : Value) (env : EnvId)

theorem tracedForced_fst (s : Store) :
    (m.tracedForced depth e env s).1 = m.evaluateForced depth e env s := by
  have hs : ∀ c, Erases Answer (m.traced depth c) (m.perform depth c) := traced_plain m depth
  exact congrFun (forcedWith_respects Erases.sequential hs
    (Erases.sequential.forceWith hs rfl m.links) e env) s

theorem tracedForced_propagates :
    Propagates Answer (m.tracedForced depth e env) (m.tracedForced depth e env) := by
  have hs := traced_propagates m depth
  exact forcedWith_respects Propagates.sequential hs
    (Propagates.sequential.forceWith hs (.lift _) m.links) e env

theorem tracedForced_genuine :
    Genuine m Answer (m.tracedForced depth e env) (m.tracedForced depth e env) := by
  have hs := traced_genuine m depth
  exact forcedWith_respects (Genuine.sequential m) hs
    ((Genuine.sequential m).forceWith hs (.lift _) m.links) e env

theorem tracedForced_blames :
    Blames (· = .unfinished) Answer (m.tracedForced depth e env) (m.tracedForced depth e env) := by
  have hs := traced_blames m (· = .unfinished) depth
  exact forcedWith_respects Blames.sequential hs
    (Blames.sequential.forceWith hs (.lift fun s e t h => by cases h; rfl) m.links) e env

theorem tracedForced_exhausts :
    Exhausts m.links Answer (m.tracedForced depth e env) (m.tracedForced depth e env) :=
  forcedWith_respects Exhausts.sequential (fun c => .traced depth c (m.traced depth c))
    (fun v => .forceWith depth v _) e env

end Traced

/-! ## Answers and reports -/

/-- The evaluation has ended in a way that is reported: it failed or went too deep.
The answer after the report, and the store before it. -/
def Reports (r : EStateM.Result Stop Store Answer) (a : Answer) (s : Store) : Prop :=
  (r = .ok a s ∧ a.ok = false) ∨ (r = .error .tooDeep s ∧ a = .failure)

section Interpret
variable {m : Machine} {depth : Nat} {e : Value} {env : EnvId} {s t : Store} {a : Answer}

theorem evaluateForced_of_success {v : Value} (h : m.evaluate depth e env s = .ok (.success v) t) :
    m.evaluateForced depth e env s = m.force depth v t :=
  EvalM.bind_ok h

theorem evaluateForced_of_failure (h : m.evaluate depth e env s = .ok a t) (hok : a.ok = false) :
    m.evaluateForced depth e env s = .ok a t := by
  refine (EvalM.bind_ok h).trans ?_
  rw [hok]
  rfl

theorem evaluateForced_of_stop {stop : Stop} (h : m.evaluate depth e env s = .error stop t) :
    m.evaluateForced depth e env s = .error stop t :=
  EvalM.bind_error h

theorem interpret_of_ok (h : m.evaluateForced depth e env s = .ok a t) (hok : a.ok = true) :
    m.interpret depth e env s = .ok a t := by
  simp only [interpret, h, if_pos hok]

theorem interpret_of_error {stop : Stop} (h : m.evaluateForced depth e env s = .error stop t)
    (hstop : stop ≠ .tooDeep) : m.interpret depth e env s = .error stop t := by
  cases stop with
  | tooDeep => exact absurd rfl hstop
  | _ => simp only [interpret, h]

theorem interpret_of_failure (h : m.evaluateForced depth e env s = .ok a t) (hno : a.ok = false)
    {text : String} (ht : t.render depth e = .ok text) : m.interpret depth e env s =
      .ok a (t.note m.level ⟨.interpreter, .warning, "Evaluation failed: " ++ text⟩) := by
  simp only [interpret, h, hno, reportFailed, bind, EStateM.bind, EvalM.render, ht]
  rfl

theorem interpret_of_tooDeep (h : m.evaluateForced depth e env s = .error .tooDeep t)
    {text : String} (ht : t.render depth e = .ok text) : m.interpret depth e env s =
      .ok .failure (t.note m.level
        ⟨.interpreter, .error, "Recursion limit exceeded evaluating " ++ text⟩) := by
  simp only [interpret, h, reportTooDeep, bind, EStateM.bind, EvalM.render, ht]
  rfl

theorem interpret_of_text (h : Reports (m.evaluateForced depth e env s) a t) {text : String}
    (ht : t.render depth e = .ok text) :
    ∃ record, m.interpret depth e env s = .ok a (t.note m.level record) := by
  rcases h with ⟨h, hno⟩ | ⟨h, rfl⟩
  · exact ⟨_, interpret_of_failure h hno ht⟩
  · exact ⟨_, interpret_of_tooDeep h ht⟩

theorem interpret_of_unwritable (h : Reports (m.evaluateForced depth e env s) a t)
    {why : Unwritable} (ht : t.render depth e = .error why) :
    m.interpret depth e env s = .error why.stop t := by
  rcases h with ⟨h, hno⟩ | ⟨h, rfl⟩
  · simp only [interpret, h, hno, reportFailed, bind, EStateM.bind, EvalM.render, ht]
    rfl
  · simp only [interpret, h, reportTooDeep, bind, EStateM.bind, EvalM.render, ht]

/-- What can come of an evaluation: success, something to report, or a stop. -/
theorem evaluateForced_cases (m : Machine) (depth : Nat) (e : Value) (env : EnvId) (s : Store) :
    (∃ a t, m.evaluateForced depth e env s = .ok a t ∧ a.ok = true) ∨
      (∃ a t, Reports (m.evaluateForced depth e env s) a t) ∨
      ∃ stop t, m.evaluateForced depth e env s = .error stop t ∧ stop ≠ .tooDeep := by
  cases m.evaluateForced depth e env s with
  | ok a t =>
    cases hok : a.ok with
    | true => exact .inl ⟨a, t, rfl, hok⟩
    | false => exact .inr (.inl ⟨a, t, .inl ⟨rfl, hok⟩⟩)
  | error stop t =>
    cases stop with
    | tooDeep => exact .inr (.inl ⟨.failure, t, .inr ⟨rfl, rfl⟩⟩)
    | _ => exact .inr (.inr ⟨_, t, rfl, nofun⟩)

/-- An interpreter does not end exactly when its evaluation does not. -/
theorem interpret_unfinished_iff :
    m.interpret depth e env s = .error .unfinished t ↔
      m.evaluateForced depth e env s = .error .unfinished t := by
  constructor
  · intro h
    rcases m.evaluateForced_cases depth e env s with
      ⟨a, u, hr, hok⟩ | ⟨a, u, hr⟩ | ⟨stop, u, hr, hstop⟩
    · rw [interpret_of_ok hr hok] at h; cases h
    · cases hw : u.render depth e with
      | ok text =>
        obtain ⟨record, hi⟩ := interpret_of_text hr hw
        rw [hi] at h; cases h
      | error why =>
        rw [interpret_of_unwritable hr hw] at h
        exact absurd (EStateM.Result.error.inj h).1 why.stop_ne_unfinished
    · rw [interpret_of_error hr hstop] at h
      rw [hr, h]
  · exact fun h => interpret_of_error h nofun

end Interpret

/-! ## Evaluations that do not end -/

section Endless
variable {m : Machine} {depth : Nat} {v : Value} {s : Store}

theorem EachReturns.next {id : PromiseId} {t : Store} {a : Answer}
    (h : m.EachReturns depth (.promise id) s) (hf : m.Forces depth id s a t) (hok : a.ok = true) :
    m.EachReturns depth a.value t :=
  fun _ _ _ hw => h (.step hf hok hw)

/-- If its forces return, the loop ends with an answer or not at all. -/
theorem EachReturns.forceWith (h : m.EachReturns depth v s) (n links : Nat) :
    (∃ a t, Machine.forceWith ((m.withLinks n).perform depth) links v s = .ok a t) ∨
      ∃ t, Machine.forceWith ((m.withLinks n).perform depth) links v s = .error .unfinished t := by
  induction links generalizing v s with
  | zero =>
    cases v with
    | promise id => exact .inr ⟨s, rfl⟩
    | _ => exact .inl ⟨_, s, rfl⟩
  | succ links ih =>
    cases v with
    | promise id =>
      obtain ⟨a, t, hf⟩ := h (.start _ s)
      obtain ⟨k, hk⟩ := hf.eventually
      -- with fewer links than its own force needs, the loop has already run out of them
      rcases m.perform_more_links depth (Nat.le_max_left n k) (.force id) s with
        ⟨stop, u, rfl, hrun⟩ | hrun
      · exact .inr ⟨u, EvalM.bind_error hrun⟩
      · have hnow := hrun.symm.trans (hk _ (Nat.le_max_right n k))
        rw [Machine.forceWith, EvalM.bind_ok hnow]
        split
        · next hok => exact ih (h.next hf hok)
        · exact .inl ⟨a, t, rfl⟩
    | _ => exact .inl ⟨_, s, rfl⟩

/-- An interpreter whose evaluation returns a value ends exactly when the loop on
this value leaves. -/
theorem interpret_ends_iff (h : m.EachReturns depth v s) {e : Value} {env : EnvId} {s₀ : Store}
    {n₀ : Nat} (he : (m.withLinks n₀).evaluate depth e env s₀ = .ok (.success v) s) :
    (∃ n, ∀ t, (m.withLinks n).interpret depth e env s₀ ≠ .error .unfinished t) ↔
      m.Leaves depth v s := by
  constructor
  · rintro ⟨n, hn⟩
    have hmax := (m.perform_more_links depth (Nat.le_max_right n n₀) (.evaluate e env)).ok he
    rcases m.perform_more_links depth (Nat.le_max_left n n₀) (.evaluate e env) s₀ with
      ⟨stop, t, rfl, hrun⟩ | hrun
    · exact absurd (interpret_unfinished_iff.mpr (evaluateForced_of_stop hrun)) (hn t)
    · have hforced := evaluateForced_of_success (m := m.withLinks n) (hrun.symm.trans hmax)
      rcases h.forceWith n n with ⟨a, t, hf⟩ | ⟨t, hf⟩
      · exact ⟨n, a, t, hf⟩
      · exact absurd (interpret_unfinished_iff.mpr (hforced.trans hf)) (hn t)
  · rintro ⟨n, a, t, hf⟩
    refine ⟨max n n₀, fun u hu => ?_⟩
    have hmax := (m.perform_more_links depth (Nat.le_max_right n n₀) (.evaluate e env)).ok he
    have hforced := evaluateForced_of_success (m := m.withLinks (max n n₀)) hmax
    have hlong := (m.force_below (E := (· = .unfinished)) (Nat.le_refl depth) (.inr rfl)
      (Nat.le_max_left n n₀) (.inl rfl) v).ok hf
    rw [interpret_unfinished_iff, hforced, hlong] at hu
    cases hu

/-- A run that does not end has followed all links in a loop of a native or in the
loop of the interpreter itself. -/
theorem hasLoop_of_unfinished {e : Value} {env : EnvId} {t : Store}
    (h : m.interpret depth e env s = .error .unfinished t) :
    HasLoop m.links (m.tracedForced depth e env s).2 ∨
      ∃ c ∈ (m.tracedForced depth e env s).2, (∃ p params env', c.call = .native p params env') ∧
        HasLoop m.links c.inner := by
  rw [interpret_unfinished_iff, ← tracedForced_fst] at h
  rcases m.tracedForced_blames depth e env s with ⟨hret, -⟩ | ⟨stop, u, hu, c, hc, hstopped⟩
  · exact .inl (m.tracedForced_exhausts depth e env s t h hret)
  · rw [h] at hu
    cases hu
    exact .inr ⟨c, hc, hstopped.hasLoop (m.tracedForced_genuine depth e env s c hc)⟩

end Endless

end Machine

/-- **The loop that follows promises leaves exactly when it meets no promise twice
and the promises stay boundedly many**, if the single forces on its way return.
So it is for the forced value and for an interpreter whose evaluation gives the
value. An evaluation that does not end has followed all its links in the loop of a
native or of the interpreter; one that goes too deep is answered by a failure if
its expression can be quoted. -/
theorem force_leaves_iff (m : Machine) (depth : Nat) (v : Value) (s : Store)
    (h : m.EachReturns depth v s) :
    (m.Leaves depth v s ↔ m.NeverRevisits depth v s ∧ m.StaysBounded depth v s) ∧
      ((∃ n w t, (m.withLinks n).forcedValue depth v s = .ok w t) ↔ m.Leaves depth v s) ∧
      (∀ e env s₀ n₀, (m.withLinks n₀).evaluate depth e env s₀ = .ok (.success v) s →
        ((∃ n, ∀ t, (m.withLinks n).interpret depth e env s₀ ≠ .error .unfinished t) ↔
          m.Leaves depth v s)) ∧
      ∀ e env s₀,
        (∀ t, m.interpret depth e env s₀ = .error .unfinished t →
          HasLoop m.links (m.tracedForced depth e env s₀).2 ∨
            ∃ c ∈ (m.tracedForced depth e env s₀).2,
              (∃ p params env', c.call = .native p params env') ∧ HasLoop m.links c.inner) ∧
        ∀ t text, m.evaluateForced depth e env s₀ = .error .tooDeep t →
          t.render depth e = .ok text →
          ∃ record, m.interpret depth e env s₀ = .ok .failure (t.note m.level record) := by
  refine ⟨Machine.leaves_iff_bounded h, ⟨?_, ?_⟩, fun e env s₀ n₀ he => ?_, fun e env s₀ => ⟨?_, ?_⟩⟩
  · rintro ⟨n, w, t, hw⟩
    obtain ⟨a, u, hf, -⟩ := EvalM.bind_eq_ok hw
    exact ⟨n, a, u, hf⟩
  · rintro ⟨n, a, t, hf⟩
    exact ⟨n, if a.ok then a.value else .nil, t, EvalM.bind_ok hf⟩
  · exact Machine.interpret_ends_iff h he
  · exact fun t ht => Machine.hasLoop_of_unfinished ht
  · exact fun t text hdeep ht => Machine.interpret_of_text (.inr ⟨hdeep, rfl⟩) ht

/-- A promise whose expression is a name that is bound to another promise. -/
def twoPromises : Store where
  mappings := #[.ofList [("x", .promise ⟨1⟩)]]
  environments := #[⟨⟨0⟩, none⟩]
  promises := #[⟨.symbol "x", ⟨0⟩, none⟩, ⟨.integer 5, ⟨0⟩, none⟩]

/-- Two promises in a row: the forces return, so the loop leaves and stays bounded. -/
theorem twoPromises_leaves :
    Prelude.machine.EachReturns 2 (.promise ⟨0⟩) twoPromises ∧
      Prelude.machine.Leaves 2 (.promise ⟨0⟩) twoPromises ∧
      Prelude.machine.NeverRevisits 2 (.promise ⟨0⟩) twoPromises ∧
      Prelude.machine.StaysBounded 2 (.promise ⟨0⟩) twoPromises := by
  have h : Prelude.machine.EachReturns 2 (.promise ⟨0⟩) twoPromises := by
    intro l id t hw
    cases hw with
    | start => exact ⟨_, _, 0, rfl⟩
    | step hf _ hrest =>
      obtain ⟨rfl, rfl⟩ := hf.unique ⟨0, rfl⟩
      cases hrest with
      | start => exact ⟨_, _, 0, rfl⟩
      | step hf' _ hrest =>
        obtain ⟨rfl, rfl⟩ := hf'.unique ⟨0, rfl⟩
        cases hrest
  have hleaves : Prelude.machine.Leaves 2 (.promise ⟨0⟩) twoPromises := ⟨2, _, _, rfl⟩
  exact ⟨h, hleaves, (force_leaves_iff _ _ _ _ h).1.mp hleaves⟩

theorem knot_forceWith (depth n links : Nat) :
    Machine.forceWith ((Prelude.machine.withLinks n).perform (depth + 1)) links (.promise ⟨0⟩) knot =
      .error .unfinished knot := by
  induction links with
  | zero => rfl
  | succ links ih => exact ih

/-- Every force of a promise that is its own result returns, but the loop on it
never leaves, and an interpreter does not end on it. -/
theorem knot_never_leaves :
    (∀ depth, Prelude.machine.EachReturns (depth + 1) (.promise ⟨0⟩) knot) ∧
      ∀ depth links,
        (Prelude.machine.withLinks links).force (depth + 1) (.promise ⟨0⟩) knot =
          .error .unfinished knot ∧
        (Prelude.machine.withLinks links).interpret (depth + 2) (.promise ⟨0⟩) ⟨0⟩ knot =
          .error .unfinished knot := by
  refine ⟨fun depth => ?_, fun depth links => ⟨knot_forceWith depth links links, ?_⟩⟩
  · have hstay : ∀ v s l w t, Prelude.machine.Follows (depth + 1) v s l w t → v = .promise ⟨0⟩ →
        s = knot → w = .promise ⟨0⟩ ∧ t = knot := by
      intro v s l w t hw
      induction hw with
      | start => exact fun hv hs => ⟨hv, hs⟩
      | step hf _ _ ih =>
        rintro ⟨⟩ rfl
        obtain ⟨rfl, rfl⟩ := hf.unique ⟨0, rfl⟩
        exact ih rfl rfl
    intro l id t hw
    obtain ⟨hid, rfl⟩ := hstay _ _ _ _ _ hw rfl rfl
    cases hid
    exact ⟨_, _, 0, rfl⟩
  · exact Machine.interpret_unfinished_iff.mpr (knot_forceWith (depth + 1) links links)

/-! ## Going too deep -/

namespace Interpreter

/-- How the evaluation ends, before any report. -/
def outcome (i : Interpreter) (e : Value) (h : Host) : EStateM.Result Stop Store Answer :=
  h.machine.evaluateForced h.recursionLimit e i.env h.store

/-- The calls that the evaluation makes. -/
def calls (i : Interpreter) (e : Value) (h : Host) : List Made :=
  (h.machine.tracedForced h.recursionLimit e i.env h.store).2

variable {i : Interpreter} {e : Value} {h h' : Host} {a : Answer} {s : Store}

theorem evaluate_of_ok
    (hi : h.machine.interpret h.recursionLimit e i.env h.store = .ok a s) :
    i.evaluate e h = .ok a { h with store := s } := by
  simp only [evaluate, HostM.eval, hi]

theorem evaluate_of_error {stop : Stop}
    (hi : h.machine.interpret h.recursionLimit e i.env h.store = .error stop s) :
    i.evaluate e h = .error stop { h with store := s } := by
  simp only [evaluate, HostM.eval, hi]

/-- What an interpreter gives: the successful answer, the answer after a report or
what kept the report from being written, or the stop of the evaluation. -/
theorem evaluate_cases (i : Interpreter) (e : Value) (h : Host) :
    (∃ a s, i.outcome e h = .ok a s ∧ a.ok = true ∧ i.evaluate e h = .ok a { h with store := s }) ∨
      (∃ a s, Machine.Reports (i.outcome e h) a s ∧
        ((∃ text h', s.render h.recursionLimit e = .ok text ∧ i.evaluate e h = .ok a h') ∨
          ∃ why, s.render h.recursionLimit e = .error why ∧
            i.evaluate e h = .error (Unwritable.stop why) { h with store := s })) ∨
      ∃ stop s, i.outcome e h = .error stop s ∧ stop ≠ .tooDeep ∧
        i.evaluate e h = .error stop { h with store := s } := by
  rcases h.machine.evaluateForced_cases h.recursionLimit e i.env h.store with
    ⟨a, s, hr, hok⟩ | ⟨a, s, hr⟩ | ⟨stop, s, hr, hstop⟩
  · exact .inl ⟨a, s, hr, hok, evaluate_of_ok (Machine.interpret_of_ok hr hok)⟩
  · refine .inr (.inl ⟨a, s, hr, ?_⟩)
    cases hw : s.render h.recursionLimit e with
    | ok text =>
      obtain ⟨record, hi⟩ := Machine.interpret_of_text hr hw
      exact .inl ⟨text, _, rfl, evaluate_of_ok hi⟩
    | error why =>
      exact .inr ⟨why, rfl, evaluate_of_error (Machine.interpret_of_unwritable hr hw)⟩
  · exact .inr (.inr ⟨stop, s, hr, hstop, evaluate_of_error (Machine.interpret_of_error hr hstop)⟩)

/-- A call that went too deep has made the whole evaluation go too deep. -/
theorem reports_of_tooDeep {c : Made} (hc : c ∈ i.calls e h) (hs : c.outcome = .error .tooDeep s) :
    Machine.Reports (i.outcome e h) .failure s := by
  refine .inr ⟨?_, rfl⟩
  rw [outcome, ← Machine.tracedForced_fst]
  exact h.machine.tracedForced_propagates h.recursionLimit e i.env h.store c hc _ s hs

/-- A stop that is not about depth or digits is that of a native, or of the loop. -/
theorem blame_of_outcome {stop : Stop} (ho : i.outcome e h = .error stop s)
    (hdeep : stop ≠ .tooDeep) :
    (∃ c ∈ i.calls e h, (∃ p params env, c.call = .native p params env) ∧ c.Stopped stop s) ∨
      stop = Unwritable.tooManyDigits.stop ∨
      (stop = .unfinished ∧ ∀ c ∈ i.calls e h, c.Returned) := by
  rw [outcome, ← Machine.tracedForced_fst] at ho
  rcases h.machine.tracedForced_blames h.recursionLimit e i.env h.store with
    ⟨hret, hstop⟩ | ⟨stop', t, ht, c, hc, hstopped⟩
  · exact .inr (.inr ⟨hstop stop s ho, hret⟩)
  · rw [ho] at ht
    cases ht
    have hcan := hstopped.canStop
    cases hcall : c.call with
    | native p params env => exact .inl ⟨c, hc, ⟨p, params, env, hcall⟩, hstopped⟩
    | evaluate | arguments | deferred =>
      rw [hcall] at hcan
      obtain ⟨why, rfl⟩ := hcan
      cases why with
      | tooDeep => exact absurd rfl hdeep
      | tooManyDigits => exact .inr (.inl rfl)
    | force id => rw [hcall] at hcan; exact absurd hcan hdeep
    | closure c params => rw [hcall] at hcan; exact absurd hcan hdeep

/-- Exhausted depth comes out only of a report that cannot be written. -/
theorem evaluate_escapes_iff (i : Interpreter) (e : Value) (h : Host) :
    (∃ h', i.evaluate e h = .error .tooDeep h') ↔
      ∃ a s, Machine.Reports (i.outcome e h) a s ∧
        s.render h.recursionLimit e = .error .tooDeep := by
  constructor
  · rintro ⟨h', hescape⟩
    rcases i.evaluate_cases e h with
      ⟨a, s, _, _, hi⟩ | ⟨a, s, hr, ⟨text, h', _, hi⟩ | ⟨why, hw, hi⟩⟩ | ⟨stop, s, _, hstop, hi⟩
    · rw [hi] at hescape; cases hescape
    · rw [hi] at hescape; cases hescape
    · rw [hi] at hescape
      cases why with
      | tooDeep => exact ⟨a, s, hr, hw⟩
      | tooManyDigits => cases hescape
    · rw [hi] at hescape
      cases hescape
      exact absurd rfl hstop
  · rintro ⟨a, s, hr, hw⟩
    exact ⟨_, evaluate_of_error (Machine.interpret_of_unwritable hr hw)⟩

theorem evaluate_answers_iff (i : Interpreter) (e : Value) (h : Host) :
    (∃ a h', i.evaluate e h = .ok a h') ↔
      (∃ a s, i.outcome e h = .ok a s ∧ a.ok = true) ∨
        ∃ a s text, Machine.Reports (i.outcome e h) a s ∧
          s.render h.recursionLimit e = .ok text := by
  constructor
  · rintro ⟨b, h', hanswer⟩
    rcases i.evaluate_cases e h with
      ⟨a, s, ho, hok, _⟩ | ⟨a, s, hr, ⟨text, h', hw, _⟩ | ⟨why, _, hi⟩⟩ | ⟨stop, s, _, _, hi⟩
    · exact .inl ⟨a, s, ho, hok⟩
    · exact .inr ⟨a, s, text, hr, hw⟩
    · rw [hi] at hanswer; cases hanswer
    · rw [hi] at hanswer; cases hanswer
  · rintro (⟨a, s, ho, hok⟩ | ⟨a, s, text, hr, hw⟩)
    · exact ⟨a, _, evaluate_of_ok (Machine.interpret_of_ok ho hok)⟩
    · obtain ⟨record, hi⟩ := Machine.interpret_of_text hr hw
      exact ⟨a, _, evaluate_of_ok hi⟩

/-- To the stops of its evaluation an interpreter adds that of a report which quotes
a number with too many digits. -/
theorem blame_of_evaluate {stop : Stop} (herror : i.evaluate e h = .error stop h')
    (hdeep : stop ≠ .tooDeep) :
    (∃ c ∈ i.calls e h, (∃ p params env, c.call = .native p params env) ∧
        c.Stopped stop h'.store) ∨
      stop = Unwritable.tooManyDigits.stop ∨
      (stop = .unfinished ∧ ∀ c ∈ i.calls e h, c.Returned) := by
  rcases i.evaluate_cases e h with
    ⟨a, s, _, _, hi⟩ | ⟨a, s, _, ⟨text, h', _, hi⟩ | ⟨why, _, hi⟩⟩ | ⟨stop', s, ho, _, hi⟩
  · rw [hi] at herror; cases herror
  · rw [hi] at herror; cases herror
  · rw [hi] at herror
    cases herror
    cases why with
    | tooDeep => exact absurd rfl hdeep
    | tooManyDigits => exact .inr (.inl rfl)
  · rw [hi] at herror
    cases herror
    exact blame_of_outcome ho hdeep

end Interpreter

/-- **Exhausted depth escapes an interpreter exactly when a report cannot be
written for depth.** It answers when the evaluation succeeded or what is to be
reported can be quoted, and wherever a call went too deep the answer is then a
failure. Any other stop is one that a native made by itself, comes from a number
with too many digits, or is a loop without end. -/
theorem evaluate_tooDeep_iff (i : Interpreter) (e : Value) (h : Host) :
    ((∃ h', i.evaluate e h = .error .tooDeep h') ↔
        ∃ a s, Machine.Reports (i.outcome e h) a s ∧
          s.render h.recursionLimit e = .error .tooDeep) ∧
      ((∃ a h', i.evaluate e h = .ok a h') ↔
        (∃ a s, i.outcome e h = .ok a s ∧ a.ok = true) ∨
          ∃ a s text, Machine.Reports (i.outcome e h) a s ∧
            s.render h.recursionLimit e = .ok text) ∧
      (∀ c ∈ i.calls e h, ∀ s text, c.outcome = .error .tooDeep s →
        s.render h.recursionLimit e = .ok text →
        ∃ record, i.evaluate e h = .ok .failure { h with store := s.note h.level record }) ∧
      ∀ stop h', i.evaluate e h = .error stop h' → stop ≠ .tooDeep →
        (∃ c ∈ i.calls e h, (∃ p params env, c.call = .native p params env) ∧
          c.Stopped stop h'.store) ∨
        stop = Unwritable.tooManyDigits.stop ∨
        (stop = .unfinished ∧ ∀ c ∈ i.calls e h, c.Returned) := by
  refine ⟨i.evaluate_escapes_iff e h, i.evaluate_answers_iff e h, fun c hc s text hs hw => ?_, ?_⟩
  · obtain ⟨record, hi⟩ := Machine.interpret_of_text (Interpreter.reports_of_tooDeep hc hs) hw
    exact ⟨record, Interpreter.evaluate_of_ok hi⟩
  · exact fun stop h' herror hdeep => Interpreter.blame_of_evaluate herror hdeep

/-- A host with the natives of the prelude whose store holds the knot. -/
def knotHost (limit links : Nat) : Host where
  library := Prelude.library
  store := knot
  recursionLimit := limit
  links := links

/-- Once a promise has become its own result, which forcing it does, a failing call
on it ends by exhausted depth, for all limits. -/
theorem tooDeep_escapes :
    Prelude.machine.perform 2 (.force ⟨0⟩) looseKnot = .ok (.success (.promise ⟨0⟩)) knot ∧
      ∀ limit links, ∃ h, Interpreter.evaluate ⟨⟨0⟩, ⟨0⟩⟩
        (form [.symbol "nosuch", .promise ⟨0⟩]) (knotHost limit links) = .error .tooDeep h := by
  refine ⟨rfl, fun limit links => ?_⟩
  obtain ⟨t, hshown, ht⟩ := knot_call_tooDeep (knotHost limit links).machine limit
  have hreports : Machine.Reports ((knotHost limit links).machine.evaluateForced limit
      (form [.symbol "nosuch", .promise ⟨0⟩]) ⟨0⟩ knot) .failure t :=
    .inr ⟨Machine.evaluateForced_of_stop ht, rfl⟩
  exact ⟨_, Interpreter.evaluate_of_error
    (Machine.interpret_of_unwritable hreports (render_list_own_result hshown _ limit))⟩

end LispCore
