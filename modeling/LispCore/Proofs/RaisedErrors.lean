import LispCore.Proofs.Adequacy
import LispCore.Proofs.Memo
import LispCore.Proofs.OwnStops

/-! # Where errors come from

What the evaluator itself finds wrong is an answer without success. An error is another
thing: it ends all that is going on. Here is where it can come from, for every way into
the evaluator and whatever it is given. Either the depth is exhausted, or a native has
raised the error by itself, and then nothing is called any more: all calls that end later
were open around that native (`Unwinds`). Promises have been forced meanwhile only by
forces that returned (`errors_from_natives`).

The one thing assumed is about the notes on failures. They quote values, and an integer
with too many digits has no text, so integers in quoted values are taken to be of a size
that can be written (`Task.DigitsFit`). -/
namespace LispCore

/-! ## Tasks with their calls -/

namespace Task
variable {M : Type → Type} [Monad M] [MonadLiftT EvalM M]

/-- How the evaluator goes about a task, given how calls are made. -/
def runWith (m : Machine) (depth : Nat) (self : Call → M Answer) : Task → M Answer
  | .call c => self c
  | .apply e callee args env => m.applyWith depth self e callee args env
  | .resolve v => Machine.forceWith self m.links v
  | .script x => m.runWith depth self x

theorem runWith_perform (m : Machine) (depth : Nat) (task : Task) :
    task.runWith m depth (m.perform depth) = task.run m depth m.links := by
  cases task <;> rfl

/-- The task with the calls it makes. -/
def traced (m : Machine) (depth : Nat) (task : Task) : TraceM Answer :=
  task.runWith m depth (m.traced depth)

/-- The calls that a task makes, in the order in which they end. -/
def calls (m : Machine) (depth : Nat) (task : Task) (s : Store) : List Made :=
  (task.traced m depth s).2

end Task

/-- A task respects what its calls respect. -/
theorem Respects.task {M N : Type → Type} [Monad M] [Monad N] [MonadLiftT EvalM M]
    [MonadLiftT EvalM N] {m m' : Machine} {d d' : Nat} {R : ∀ α : Type, M α → N α → Prop}
    {self : Call → M Answer} {self' : Call → N Answer} (h : Respects m m' d d' R)
    (hs : ∀ c, R Answer (self c) (self' c))
    (hf : ∀ v, R Answer (Machine.forceWith self m.links v) (Machine.forceWith self' m'.links v))
    (task : Task) : R Answer (task.runWith m d self) (task.runWith m' d' self') := by
  cases task with
  | call c => exact hs c
  | apply e callee args env => exact h.evaluator.applyWith hs e callee args env
  | resolve v => exact hf v
  | script x => exact h.native.runWith hs hf x

/-! ## Unwinding -/

/-- When a call has stopped, the whole computation stops in the same way, and the calls that
end after it are those that it was made in. -/
def Unwinds (α : Type) (x _y : TraceM α) : Prop :=
  ∀ s, ∀ c ∈ (x s).2, ∀ e t, c.outcome = .error e t → (x s).1 = .error e t ∧
    ∃ before above, (x s).2 = before ++ c :: above ∧ ∀ b ∈ above, c ∈ b.inner

namespace Unwinds

theorem lift {α : Type} (x : EvalM α) : Unwinds α (liftM x) (liftM x) := by
  intro s c hc
  cases hc

theorem sequential : Sequential Unwinds where
  pure a := by
    intro s c hc
    cases hc
  bind {_ _ x _ f _} hx hf := by
    intro s c hc e t he
    rcases x.cases s with ⟨a, u, l, h⟩ | ⟨e', u, l, h⟩
    · rw [TraceM.bind_ok h] at hc ⊢
      rcases List.mem_append.mp hc with hc | hc
      · -- the first part has returned, so none of its calls has stopped
        have hstop := (hx s c (h ▸ hc) e t he).1
        rw [h] at hstop
        cases hstop
      · obtain ⟨hstop, before, above, hl, habove⟩ := hf a u c hc e t he
        refine ⟨hstop, l ++ before, above, ?_, habove⟩
        simp only [hl, List.append_assoc]
    · rw [TraceM.bind_error h] at hc ⊢
      obtain ⟨hstop, hl⟩ := hx s c (h ▸ hc) e t he
      rw [h] at hstop hl
      cases hstop
      exact ⟨rfl, hl⟩

theorem enclose {x : TraceM Answer} (call : Call) (h : Unwinds Answer x x) :
    Unwinds Answer (.enclose call x) (.enclose call x) := by
  intro s c hc e t he
  rcases List.mem_append.mp hc with hc | hc
  · obtain ⟨hstop, before, above, hl, habove⟩ := h s c hc e t he
    refine ⟨hstop, before, above ++ [.mk call s (x s).1 (x s).2], ?_, ?_⟩
    · simp only [TraceM.enclose, hl, List.append_assoc, List.cons_append]
    · intro b hb
      rcases List.mem_append.mp hb with hb | hb
      · exact habove b hb
      · rw [List.mem_singleton.mp hb]
        exact hc
  · rw [List.mem_singleton.mp hc] at he ⊢
    exact ⟨he, (x s).2, [], rfl, by simp⟩

theorem respects (m : Machine) (d : Nat) : Respects m m d d Unwinds where
  evaluator := ⟨sequential, fun h => h.eq ▸ lift _⟩
  enter _ _ := lift _
  native := ⟨sequential, rfl, fun h => h.eq ▸ lift _⟩

/-- **Nothing is called once a call has stopped.** -/
theorem traced (m : Machine) (d : Nat) (c : Call) :
    Unwinds Answer (m.traced d c) (m.traced d c) := by
  induction d generalizing c with
  | zero => exact enclose c (lift _)
  | succ d ih =>
    exact enclose c ((respects m d).step ih (sequential.forceWith ih (lift _) m.links)
      (fun id => sequential.forceOnceWith ih id (lift _) fun _ => lift _) c)

end Unwinds

/-! ## What holds of the calls of a task -/

namespace Task
variable (m : Machine) (d : Nat) (task : Task)

theorem traced_fst (s : Store) : (task.traced m d s).1 = task.run m d m.links s := by
  have hs : ∀ c, Erases Answer (m.traced d c) (m.perform d c) := traced_plain m d
  have hplain := (erases_respects m d).task hs (Erases.sequential.forceWith hs rfl m.links) task
  rw [runWith_perform] at hplain
  exact congrFun hplain s

theorem traced_unwinds : Unwinds Answer (task.traced m d) (task.traced m d) :=
  (Unwinds.respects m d).task (.traced m d)
    (Unwinds.sequential.forceWith (.traced m d) (.lift _) m.links) task

theorem traced_genuine : Genuine m Answer (task.traced m d) (task.traced m d) := by
  have hq := Genuine.sequential m
  have hr : Respects m m d d (Genuine m) :=
    ⟨⟨hq, fun _ => .lift _⟩, fun _ _ => .lift _, ⟨hq, rfl, fun _ => .lift _⟩⟩
  have hs := LispCore.traced_genuine m d
  exact hr.task hs (hq.forceWith hs (.lift _) m.links) task

theorem traced_blames : Blames (fun _ => True) Answer (task.traced m d) (task.traced m d) := by
  have hlift {α : Type} (x : EvalM α) : Blames (fun _ => True) α (liftM x) (liftM x) :=
    .lift fun _ _ _ _ => trivial
  have hr : Respects m m d d (Blames fun _ => True) :=
    ⟨⟨Blames.sequential, fun h => h.eq ▸ hlift _⟩, fun _ _ => hlift _,
      ⟨Blames.sequential, rfl, fun h => h.eq ▸ hlift _⟩⟩
  have hs := LispCore.traced_blames m (fun _ => True) d
  exact hr.task hs (Blames.sequential.forceWith hs (hlift _) m.links) task

end Task

theorem TraceLaw.task {Φ : Store → List Made → Store → Prop} (h : TraceLaw Φ) (m : Machine)
    (d : Nat) (task : Task) : Keeps Φ Answer (task.traced m d) (task.traced m d) := by
  have hs := h.traced m d
  exact (h.respects m d).task hs (h.sequential.forceWith hs (h.lift fun s => .refl s) m.links) task

/-- A promise that a run has left with an answer, and found without, was forced in it. -/
theorem MemoHistory.exists_force {id : PromiseId} {s t : Store} {l : List Made}
    (h : MemoHistory id s l t) (hs : s.memo id = none) (ht : t.memo id ≠ none) :
    ∃ c ∈ l, c.call = .force id ∧ c.Returned := by
  have hstored : stored id l ≠ [] := by
    intro hnil
    rw [h.final, hnil, hs] at ht
    exact ht rfl
  rw [Ne, stored_eq_nil_iff] at hstored
  simp only [not_forall, not_not] at hstored
  obtain ⟨c, hc, hsome⟩ := hstored
  refine ⟨c, hc, ?_⟩
  unfold Made.memoised? at hsome
  split at hsome
  · next other a t hcall hout =>
    split at hsome
    · next hid => exact ⟨by rw [hcall, hid.1], a, t, hout⟩
    · cases hsome
  · cases hsome

/-! ## Errors -/

namespace Task

/-- The values that a task quotes when it fails, apart from its calls. -/
def Quotes : Task → Value → Prop
  | .apply e callee _ _, v => v = e ∨ v = callee
  | _, _ => False

/-- The integers in the values that are quoted have few enough digits to be written. -/
structure DigitsFit (m : Machine) (d : Nat) (task : Task) (s : Store) : Prop where
  own : ∀ v, task.Quotes v → ∀ n,
    (endStore (task.run m d m.links s)).render n v ≠ .error .tooManyDigits
  calls : ∀ c ∈ task.calls m d s, ∀ v, c.Quotes v → ∀ n, c.after.render n v ≠ .error .tooManyDigits

variable {m : Machine} {d : Nat} {task : Task} {s t : Store} {stop : Stop}

/-- A task that is no script stops by itself at a quotation or in a chain without end. -/
theorem ownStops (htask : ∀ x, task ≠ .script x) :
    OwnStops (fun e t => AtText task.Quotes d e t ∨ e = .unfinished) Answer (task.traced m d)
      (task.traced m d) := by
  cases task with
  | call c => exact .traced m d c
  | apply e callee args env =>
    refine (OwnStops.applyWith m args env ?_ ?_).mono fun _ _ h => .inl h
    · exact .inl rfl
    · exact .inr rfl
  | resolve v =>
    refine OwnStops.sequential.forceWith (.traced m d) (.lift fun s e t h => ?_) m.links v
    cases h
    exact .inr rfl
  | script x => exact absurd rfl (htask x)

/-- Where digits fit, a text that cannot be written is one that goes too deep. -/
theorem eq_tooDeep_of_atText {Q : Value → Prop} {n : Nat} (h : AtText Q n stop t)
    (hfit : ∀ v, Q v → ∀ n, t.render n v ≠ .error .tooManyDigits) : stop = .tooDeep := by
  obtain ⟨v, hv, why, hwhy, rfl⟩ := h
  cases why with
  | tooDeep => rfl
  | tooManyDigits => exact absurd hwhy (hfit v hv n)

/-- An error comes from exhausted depth or from a native. -/
theorem blame (htask : ∀ x, task ≠ .script x) (hfit : task.DigitsFit m d s)
    (h : task.run m d m.links s = .error stop t) :
    stop = .tooDeep ∨ stop = .unfinished ∨
      ∃ c ∈ task.calls m d s, (∃ p params env, c.call = .native p params env) ∧
        c.Stopped stop t := by
  have htraced := (task.traced_fst m d s).trans h
  have hend : endStore (task.run m d m.links s) = t := by rw [h]; rfl
  rcases task.traced_blames m d s with ⟨hret, -⟩ | ⟨e, u, he, c, hc, hstopped⟩
  · rcases ownStops htask s hret stop t htraced with htext | hloop
    · exact .inl (eq_tooDeep_of_atText htext (hend ▸ hfit.own))
    · exact .inr (.inl hloop)
  · rw [htraced] at he
    cases he
    have hafter : c.after = t := by rw [Made.after, hstopped.outcome]; rfl
    by_cases hnative : ∃ p params env, c.call = .native p params env
    · exact .inr (.inr ⟨c, hc, hnative, hstopped⟩)
    · have hstep := task.traced_genuine m d s c hc
      rcases hstep.atText (fun p params env hcall => hnative ⟨p, params, env, hcall⟩)
        hstopped.inner hstopped.outcome with hdeep | ⟨n, htext⟩
      · exact .inl hdeep
      · exact .inl (eq_tooDeep_of_atText htext (hafter ▸ hfit.calls c hc))

/-- A run within some limits either exceeds them or is the run within larger ones. -/
theorem run_below {k n : Nat} (hd : d ≤ k) (hn : m.links ≤ n) (task : Task) :
    Below (fun e => e = .tooDeep ∨ e = .unfinished) Answer (task.run m d m.links)
      (task.run (m.withLinks n) k n) := by
  have hs : ∀ c, Below (fun e => e = .tooDeep ∨ e = .unfinished) Answer (m.perform d c)
      ((m.withLinks n).perform k c) :=
    m.perform_below hd (.inl (.inl rfl)) hn (.inl (.inr rfl))
  have hbelow := (m.below_respects (k := m.links) (n := n) hd (.inl (.inl rfl))).task hs
    (Machine.forceWith_below hs hn (.inl (.inr rfl))) task
  have hsmall := runWith_perform m d task
  have hlarge := runWith_perform (m.withLinks n) k task
  exact hsmall ▸ hlarge ▸ hbelow

/-- What the rules give is the answer, if there is an answer. -/
theorem run_of_derives {q : Quotation} {a : Answer} (h : Derives m q.Quotes task s a t) :
    task.run m d m.links s = .ok a t ∨ ∃ stop u, task.run m d m.links s = .error stop u := by
  obtain ⟨b, hb⟩ := h.settles q.faithful
  have hlarge := hb (max b (max d m.links)) (max b (max d m.links)) (max b (max d m.links))
    (by omega) (by omega) (by omega)
  rcases run_below (m := m) (d := d) (k := max b (max d m.links)) (n := max b (max d m.links))
      (by omega) (by omega) task s with ⟨stop, u, -, hrun⟩ | hsame
  · exact .inr ⟨stop, u, hrun⟩
  · rcases hlarge with hok | ⟨-, why, u, herror⟩
    · exact .inl (hsame.symm.trans hok)
    · exact .inr ⟨why.stop, u, hsame.symm.trans herror⟩

end Task

theorem forcedValue_error_iff {m : Machine} {d : Nat} {v : Value} {s t : Store} {stop : Stop} :
    m.forcedValue d v s = .error stop t ↔ m.force d v s = .error stop t := by
  unfold Machine.forcedValue
  cases h : m.force d v s with
  | ok a u => simp [EvalM.bind_ok h, pure, EStateM.pure]
  | error stop' u => simp [EvalM.bind_error h]

/-- **Errors come from natives alone.** Take any of the ways into the evaluator, from any
store, where the integers that notes quote can be written. If the run ends in an error,
then its depth was exhausted, or a chain of promises had no end, or a native raised just
this error by itself; and whatever ended after that native was open around it, so no other
native was called. Every promise that the run found without an answer and left with one
was forced in it by a force that returned. If no native raises, the only errors left are
exhausted depth and endless chains, and otherwise the run answers what the rules of the
language give, failures included.

The rules have no answer for a native that raises. What they do answer is returned within
all large enough limits, unless a value is quoted that has no text. Taking a forced value
ends in an error when forcing it does. -/
theorem errors_from_natives (m : Machine) (depth : Nat) (task : Task)
    (htask : ∀ x, task ≠ .script x) (s : Store) (hfit : task.DigitsFit m depth s) :
    (∀ stop t, task.run m depth m.links s = .error stop t →
        (stop = .tooDeep ∨ stop = .unfinished ∨
          ∃ before c above, task.calls m depth s = before ++ c :: above ∧
            (∃ p params env, c.call = .native p params env) ∧ c.Stopped stop t ∧
            ∀ b ∈ above, c ∈ b.inner) ∧
        ∀ id, s.memo id = none → t.memo id ≠ none →
          ∃ c ∈ task.calls m depth s, c.call = .force id ∧ c.Returned) ∧
      ((∀ c ∈ task.calls m depth s, ∀ p params env, c.call = .native p params env →
          ∀ fault text t, ¬ c.Stopped (.raised fault text) t) →
        (∀ stop t, task.run m depth m.links s = .error stop t →
          stop = .tooDeep ∨ stop = .unfinished) ∧
        ∀ (q : Quotation) a t, Derives m q.Quotes task s a t →
          task.run m depth m.links s = .ok a t ∨
            ∃ u, task.run m depth m.links s = .error .tooDeep u ∨
              task.run m depth m.links s = .error .unfinished u) ∧
      (∀ (q : Quotation) a t, Derives m q.Quotes task s a t →
        ∃ bound, ∀ d n, bound ≤ d → bound ≤ n →
          task.run (m.withLinks n) d n s = .ok a t ∨
            ¬ Derives m Shows task s a t ∧
              ∃ (why : Unwritable) (u : Store),
                task.run (m.withLinks n) d n s = .error why.stop u) ∧
      ∀ v stop t, m.forcedValue depth v s = .error stop t ↔ m.force depth v s = .error stop t := by
  refine ⟨fun stop t h => ⟨?_, fun id hs ht => ?_⟩, fun hquiet => ?_, fun q a t hderives => ?_,
    fun v stop t => ?_⟩
  · rcases Task.blame htask hfit h with hdeep | hloop | ⟨c, hc, hnative, hstopped⟩
    · exact .inl hdeep
    · exact .inr (.inl hloop)
    · obtain ⟨-, before, above, hcalls, habove⟩ :=
        task.traced_unwinds m depth s c hc stop t hstopped.outcome
      exact .inr (.inr ⟨before, c, above, hcalls, hnative, hstopped, habove⟩)
  · have hhistory := (MemoHistory.law id).task m depth task s
    rw [task.traced_fst, h] at hhistory
    exact hhistory.exists_force hs ht
  · have honly : ∀ stop t, task.run m depth m.links s = .error stop t →
        stop = .tooDeep ∨ stop = .unfinished := by
      intro stop t h
      rcases Task.blame htask hfit h with hdeep | hloop | ⟨c, hc, ⟨p, params, env, hcall⟩, hstopped⟩
      · exact .inl hdeep
      · exact .inr hloop
      · cases stop with
        | raised fault text => exact absurd hstopped (hquiet c hc p params env hcall fault text t)
        | tooDeep => exact .inl rfl
        | unfinished => exact .inr rfl
    refine ⟨honly, fun q a t hderives => ?_⟩
    rcases Task.run_of_derives (d := depth) hderives with hok | ⟨stop, u, herror⟩
    · exact .inl hok
    · rcases honly stop u herror with rfl | rfl
      · exact .inr ⟨u, .inl herror⟩
      · exact .inr ⟨u, .inr herror⟩
  · obtain ⟨bound, hbound⟩ := hderives.eventually_or
    exact ⟨bound, fun d n hd hn => hbound d n n hd hn hn⟩
  · exact forcedValue_error_iff

/-! ## A sample -/

namespace Made

/-- What a call may quote, and all that the calls inside an evaluation have answered. -/
def quotable (c : Made) : List Value :=
  match c.call with
  | .evaluate e _ => e :: c.inner.filterMap fun b =>
      match b.outcome with
      | .ok a _ => some a.value
      | .error _ _ => none
  | .arguments args _ | .deferred args _ => [args]
  | _ => []

theorem Quotes.mem_quotable {c : Made} {v : Value} (h : c.Quotes v) : v ∈ c.quotable := by
  cases h with
  | whole hcall => simp [quotable, hcall]
  | tail hcall => rcases hcall with hcall | hcall <;> simp [quotable, hcall]
  | head hcall hb hhead hout =>
    simp only [quotable, hcall, List.mem_cons, List.mem_filterMap]
    exact .inr ⟨_, hb, by rw [hout]; rfl⟩

/-- All that the call may quote has a text. -/
def writable (depth : Nat) (c : Made) : Bool :=
  c.quotable.all fun v => (c.after.render depth v).isOk

theorem digitsFit_of_writable {depth : Nat} {c : Made} (h : c.writable depth = true) {v : Value}
    (hv : c.Quotes v) (n : Nat) : c.after.render n v ≠ .error .tooManyDigits := by
  have hok : (c.after.render depth v).isOk = true := List.all_eq_true.mp h v hv.mem_quotable
  intro hn
  -- a text that one depth allows is the text for all depths that allow one
  rcases Nat.le_total n depth with hle | hle
  · rcases render_below c.after hle v with hdeep | hsame
    · rw [hdeep] at hn
      cases hn
    · rw [hsame, hn] at hok
      cases hok
  · rcases render_below c.after hle v with hdeep | hsame
    · rw [hdeep] at hok
      cases hok
    · rw [← hsame, hn] at hok
      cases hok

end Made

namespace Prelude

/-- A promise that forces another one and then gives up. -/
def raising : Store where
  mappings := #[frame ["list", "raise"]]
  environments := #[⟨⟨0⟩, none⟩]
  promises := #[⟨form [.symbol "list", .promise ⟨1⟩, form [.symbol "raise"]], ⟨0⟩, none⟩,
    ⟨.string "a", ⟨0⟩, none⟩]

/-- To force the first promise. -/
def forceFirst : Task := .resolve (.promise ⟨0⟩)

/-- The text of the error that a run ended in, and whether each of two promises has an
answer then. -/
def raised? : EStateM.Result Stop Store Answer → Option (String × Bool × Bool)
  | .error (.raised _ text) t => some (text, (t.memo ⟨0⟩).isSome, (t.memo ⟨1⟩).isSome)
  | _ => none

theorem raised?_eq_some {r : EStateM.Result Stop Store Answer} {text : String} {first second : Bool}
    (h : raised? r = some (text, first, second)) : ∃ fault t, r = .error (.raised fault text) t ∧
      (t.memo ⟨0⟩).isSome = first ∧ (t.memo ⟨1⟩).isSome = second := by
  unfold raised? at h
  split at h
  · next fault _ t =>
    cases h
    exact ⟨fault, t, rfl, rfl, rfl⟩
  · cases h

end Prelude

/-- Forcing the first promise forces the second one and then ends in the error that the
native raises. The first stays without an answer. -/
theorem raising_errors :
    ((∀ x, Prelude.forceFirst ≠ .script x) ∧
        Prelude.forceFirst.DigitsFit Prelude.machine 10 Prelude.raising) ∧
      ∃ fault t, Prelude.machine.force 10 (.promise ⟨0⟩) Prelude.raising =
          .error (.raised fault "raised by native") t ∧
        (∃ before c above,
          Prelude.forceFirst.calls Prelude.machine 10 Prelude.raising = before ++ c :: above ∧
          (∃ p params env, c.call = .native p params env) ∧
          c.Stopped (.raised fault "raised by native") t ∧ ∀ b ∈ above, c ∈ b.inner) ∧
        t.memo ⟨0⟩ = none ∧ t.memo ⟨1⟩ ≠ none ∧
        ∃ c ∈ Prelude.forceFirst.calls Prelude.machine 10 Prelude.raising,
          c.call = .force ⟨1⟩ ∧ c.Returned := by
  have htask : ∀ x, Prelude.forceFirst ≠ .script x := by
    intro x h
    unfold Prelude.forceFirst at h
    cases h
  have hfit : Prelude.forceFirst.DigitsFit Prelude.machine 10 Prelude.raising := by
    have hall : (Prelude.forceFirst.calls Prelude.machine 10 Prelude.raising).all
        (·.writable 10) = true := by decide +kernel
    refine ⟨fun v hv => hv.elim, fun c hc v hv n => ?_⟩
    exact Made.digitsFit_of_writable (List.all_eq_true.mp hall c hc) hv n
  have hview : Prelude.raised? (Prelude.machine.force 10 (.promise ⟨0⟩) Prelude.raising) =
      some ("raised by native", false, true) := by decide +kernel
  obtain ⟨fault, t, hrun, hfirst, hsecond⟩ := Prelude.raised?_eq_some hview
  have hsecond' : t.memo ⟨1⟩ ≠ none := by
    intro hnone
    rw [hnone] at hsecond
    cases hsecond
  obtain ⟨hsource, hforced⟩ := (errors_from_natives Prelude.machine 10 Prelude.forceFirst htask
    Prelude.raising hfit).1 _ t hrun
  refine ⟨⟨htask, hfit⟩, fault, t, hrun, ?_, by simpa using hfirst, hsecond',
    hforced ⟨1⟩ rfl hsecond'⟩
  rcases hsource with hdeep | hloop | hnative
  · cases hdeep
  · cases hloop
  · exact hnative

/-- A failure by the rules that is an error of the evaluator at every depth, though no native
is called and nothing that is quoted holds an integer: the note on the failure quotes a promise
that is its own result. -/
theorem knot_call_error :
    Prelude.machine.perform 2 (.force ⟨0⟩) looseKnot = .ok (.success (.promise ⟨0⟩)) knot ∧
      (∀ q : Quotation, ∃ t, Derives Prelude.machine q.Quotes
        (.call (.evaluate (form [.symbol "nosuch", .promise ⟨0⟩]) ⟨0⟩)) knot .failure t) ∧
      ∀ depth links, (∃ t, (Prelude.machine.withLinks links).evaluate depth
          (form [.symbol "nosuch", .promise ⟨0⟩]) ⟨0⟩ knot = .error .tooDeep t) ∧
        ∀ c ∈ (Task.call (.evaluate (form [.symbol "nosuch", .promise ⟨0⟩]) ⟨0⟩)).calls
          (Prelude.machine.withLinks links) depth knot, ∀ p params env,
            c.call ≠ .native p params env := by
  refine ⟨rfl, fun q => ⟨_, .headFails (.unbound rfl) rfl rfl⟩, fun depth links => ?_⟩
  obtain ⟨t, l, -, htraced, hcalls⟩ := knot_call_traced (Prelude.machine.withLinks links) depth
  refine ⟨⟨t, ?_⟩, fun c hc p params env hnative => ?_⟩
  · rw [Machine.evaluate, ← traced_fst, htraced]
  · have hmem : c ∈ ((Prelude.machine.withLinks links).traced depth
        (.evaluate (form [.symbol "nosuch", .promise ⟨0⟩]) ⟨0⟩) knot).2 := hc
    rw [htraced] at hmem
    obtain ⟨e, he⟩ := hcalls c hmem
    rw [he] at hnative
    cases hnative

end LispCore
