import LispCore.Proofs.EvalForms
import LispCore.Proofs.SideBySide

/-! # Where the values of failures come from

A failure may carry a value. Those that the evaluator detects itself carry nil, so any
other value was given by a native, in this run or in an earlier one that left it in a
promise (`FailureOrigin`). To follow it, the invariant of a run is about the promises: each
failure that one holds has an origin (`Store.Accounted`). A stored answer is that of an
evaluation which has just returned, so the invariant has to be carried along with the
origin of the answers themselves (`Accounted`).

On its way outwards the value of a failure is dropped where a call comes to nothing,
because its head or its list of arguments failed (`Machine.DropsFailures`), and handed on by
closures, promises and `eval` (`Machine.PassesFailures`). A call whose head failed quotes
itself in its note. Where it has no text it does not come to an answer at all
(`failingHead_stops`). -/
namespace LispCore

open Store (Touched)

/-! ## Origins -/

/-- Where the value of a failure can come from, in a run from `s` that makes the calls
`l`. -/
inductive FailureOrigin (s : Store) (l : List Made) : Value → Prop
  | nil : FailureOrigin s l .nil
  /-- A native of the run failed with it. -/
  | native {c : Made} {p : Native} {params v : Value} {env : EnvId} {t : Store} : c ∈ l →
      c.call = .native p params env → c.outcome = .ok ⟨v, false⟩ t → FailureOrigin s l v
  /-- It was stored in a promise before the run. -/
  | stored {id : PromiseId} {v : Value} : s.memo id = some ⟨v, false⟩ → FailureOrigin s l v

/-- Every failure that a promise of `t` holds has an origin. -/
def Store.Accounted (s : Store) (l : List Made) (t : Store) : Prop :=
  ∀ id v, t.memo id = some ⟨v, false⟩ → FailureOrigin s l v

section Origins
variable {s t u : Store} {l l' : List Made} {v : Value}

theorem FailureOrigin.mono (h : FailureOrigin s l v) (hl : l ⊆ l') : FailureOrigin s l' v := by
  cases h with
  | nil => exact .nil
  | native hc hcall hout => exact .native (hl hc) hcall hout
  | stored hmemo => exact .stored hmemo

/-- What a later part of the run finds in a promise has an origin in the part before. -/
theorem FailureOrigin.after (h : FailureOrigin t l' v) (ht : s.Accounted l t) :
    FailureOrigin s (l ++ l') v := by
  cases h with
  | nil => exact .nil
  | native hc hcall hout => exact .native (List.mem_append_right l hc) hcall hout
  | stored hmemo => exact (ht _ v hmemo).mono (List.subset_append_left l l')

/-- A place outside the store reads as a failure with nil. -/
theorem FailureOrigin.of_promise {id : PromiseId} (h : (s.promise id).memo = some ⟨v, false⟩) :
    FailureOrigin s l v := by
  by_cases hid : id.index < s.promises.size
  · have hstored : s.memo id = some ⟨v, false⟩ := by
      simpa [Store.memo, Store.promise, Array.getD_eq_getD_getElem?, hid] using h
    exact .stored hstored
  · simp only [Store.promise, Array.getD_eq_getD_getElem?,
      Array.getElem?_eq_none (Nat.le_of_not_lt hid), Option.getD_none] at h
    cases h
    exact .nil

theorem Store.Accounted.of_touched (h : Touched s t) : s.Accounted l t := by
  intro id v hmemo
  rw [h.promises.2] at hmemo
  exact .stored hmemo

theorem Store.Accounted.append (h : s.Accounted l t) (h' : t.Accounted l' u) :
    s.Accounted (l ++ l') u :=
  fun id v hmemo => (h' id v hmemo).after h

theorem Store.Accounted.mono (h : s.Accounted l t) (hl : l ⊆ l') : s.Accounted l' t :=
  fun id v hmemo => (h id v hmemo).mono hl

/-- Storing an answer that has an origin if it is a failure. -/
theorem Store.Accounted.memoise (h : s.Accounted l t) (id : PromiseId) {a : Answer}
    (ha : ∀ v, a = ⟨v, false⟩ → FailureOrigin s l v) : s.Accounted l (t.memoise id a) := by
  intro other v hmemo
  rw [Store.memo_memoise] at hmemo
  split at hmemo
  · exact ha v (Option.some.inj hmemo)
  · exact h other v hmemo

end Origins

/-! ## Computations -/

/-- A computation leaves no failure without an origin in a promise. -/
abbrev KeepsAccount (α : Type) (x y : TraceM α) : Prop := Keeps Store.Accounted α x y

/-- Moreover, if it answers by a failure, the value has an origin. -/
structure Accounted (x : TraceM Answer) : Prop where
  keeps : KeepsAccount Answer x x
  origin : ∀ s v t l, x s = (.ok ⟨v, false⟩ t, l) → FailureOrigin s l v

theorem KeepsAccount.lift {α : Type} {x : EvalM α} {y : TraceM α}
    (hx : ∀ s, Touched s (endStore (x s))) : KeepsAccount α (liftM x) y :=
  fun s => .of_touched (hx s)

theorem KeepsAccount.sequential : Sequential KeepsAccount where
  pure a := fun s => .of_touched (.refl s)
  bind {_ _ x _ f _} hx hf := by
    intro s
    have hxs := hx s
    rcases x.cases s with ⟨a, t, l, h⟩ | ⟨e, t, l, h⟩
    · rw [h] at hxs
      rw [TraceM.bind_ok h]
      exact hxs.append (hf a t)
    · rw [h] at hxs
      rwa [TraceM.bind_error h]

namespace Accounted

theorem success (v : Value) : Accounted (pure (.success v)) where
  keeps := KeepsAccount.sequential.pure _
  origin s w t l h := by cases h

theorem failure : Accounted (pure .failure) where
  keeps := KeepsAccount.sequential.pure _
  origin s w t l h := by
    cases h
    exact .nil

theorem bind {α : Type} {x : TraceM α} {f : α → TraceM Answer} (hx : KeepsAccount α x x)
    (hf : ∀ a, Accounted (f a)) : Accounted (x >>= f) where
  keeps := KeepsAccount.sequential.bind hx fun a => (hf a).keeps
  origin s v u l h := by
    have hxs := hx s
    rcases x.cases s with ⟨a, t, l₁, hrun⟩ | ⟨e, t, l₁, hrun⟩
    · rw [hrun] at hxs
      rw [TraceM.bind_ok hrun] at h
      obtain ⟨hout, rfl⟩ := Prod.mk.inj h
      exact ((hf a).origin t v u _ (Prod.ext hout rfl)).after hxs
    · rw [TraceM.bind_error hrun] at h
      cases h

/-- What reads or changes the store first, in a way that leaves stored answers alone. -/
theorem lift_bind {α : Type} {x : EvalM α} {f : α → TraceM Answer}
    (hx : ∀ s, Touched s (endStore (x s))) (hf : ∀ a, Accounted (f a)) :
    Accounted (liftM x >>= f) :=
  bind (.lift hx) hf

theorem enclose {x : TraceM Answer} (c : Call) (h : Accounted x) : Accounted (.enclose c x) where
  keeps s := (h.keeps s).mono (List.subset_append_left _ _)
  origin s v t l hrun := by
    obtain ⟨hout, rfl⟩ := Prod.mk.inj hrun
    exact (h.origin s v t _ (Prod.ext hout rfl)).mono (List.subset_append_left _ _)

/-- A native accounts for its own failures. -/
theorem enclose_native {x : TraceM Answer} (p : Native) (params : Value) (env : EnvId)
    (h : KeepsAccount Answer x x) : Accounted (.enclose (.native p params env) x) where
  keeps s := (h s).mono (List.subset_append_left _ _)
  origin s v t l hrun := by
    obtain ⟨hout, rfl⟩ := Prod.mk.inj hrun
    exact .native (List.mem_append_right _ (List.mem_singleton.mpr rfl)) rfl hout

end Accounted

/-! ## One call -/

section Steps
variable (m : Machine) {d : Nat} {self : Call → TraceM Answer}

namespace Accounted

theorem improperArguments (tail : Value) : Accounted (m.improperArguments d tail) :=
  lift_bind (touched_render d tail) fun _ => lift_bind (fun s => .note s _ _) fun _ => failure

theorem argumentsWith (hs : ∀ c, Accounted (self c)) (args : Value) (env : EnvId) :
    Accounted (m.argumentsWith d self args env) := by
  unfold Machine.argumentsWith
  cases args with
  | nil => exact success _
  | pair _ first rest =>
    refine bind (hs _).keeps fun head => ?_
    split
    · refine bind (hs _).keeps fun tail => ?_
      split
      · exact lift_bind .mark fun _ => success _
      · exact failure
    · exact failure
  | _ => exact improperArguments m _

theorem deferredWith (hs : ∀ c, Accounted (self c)) (args : Value) (env : EnvId) :
    Accounted (m.deferredWith d self args env) := by
  unfold Machine.deferredWith
  cases args with
  | nil => exact success _
  | pair _ first rest =>
    refine bind (hs _).keeps fun tail => ?_
    split
    · exact lift_bind (.promise · first env) fun _ => lift_bind .mark fun _ => success _
    · exact failure
  | _ => exact improperArguments m _

theorem applyWith (hs : ∀ c, Accounted (self c)) (e callee args : Value) (env : EnvId) :
    Accounted (m.applyWith d self e callee args env) := by
  unfold Machine.applyWith
  cases callee with
  | native p =>
    dsimp only
    split
    · exact hs _
    · refine bind (hs _).keeps fun params => ?_
      split
      · exact hs _
      · exact failure
  | closure =>
    refine bind (hs _).keeps fun params => ?_
    split
    · exact hs _
    · exact failure
  | _ =>
    refine lift_bind (touched_render d _) fun _ => lift_bind (touched_render d e) fun _ => ?_
    exact lift_bind (fun s => .note s _ _) fun _ => failure

theorem evaluateWith (hs : ∀ c, Accounted (self c)) (e : Value) (env : EnvId) :
    Accounted (m.evaluateWith d self e env) := by
  unfold Machine.evaluateWith
  cases e with
  | symbol name =>
    refine lift_bind .refl fun found => ?_
    cases found with
    | some v => exact success v
    | none => exact lift_bind (fun s => .note s _ _) fun _ => failure
  | pair mark head args =>
    refine bind (hs _).keeps fun callee => ?_
    split
    · exact applyWith m hs _ _ args env
    · refine lift_bind (touched_render d _) fun text => ?_
      exact lift_bind (fun s => .note s _ _) fun _ => failure
  | promise id => exact hs _
  | _ => exact success _

theorem applyClosureWith (hs : ∀ c, Accounted (self c)) (c : Closure) (params : Value) :
    Accounted (m.applyClosureWith self c params) := by
  refine lift_bind (touched_enter m c params) fun entered => ?_
  dsimp only
  split
  · exact hs _
  · exact failure

theorem forceOnceWith (hs : ∀ c, Accounted (self c)) (id : PromiseId) :
    Accounted (Machine.forceOnceWith self id) where
  keeps s := by
    rcases forceOnceWith_cases self id s with
      ⟨a, -, h⟩ | ⟨-, a, t, l, hrun, h⟩ | ⟨-, e, t, l, hrun, h⟩
    · rw [h]
      exact .of_touched (.refl s)
    · have hkept := (hs (.evaluate (s.promise id).expression (s.promise id).env)).keeps s
      rw [hrun] at hkept
      rw [h]
      refine hkept.memoise id fun v ha => ?_
      exact (hs _).origin s v t l (by rw [hrun, ha])
    · have hkept := (hs (.evaluate (s.promise id).expression (s.promise id).env)).keeps s
      rw [hrun] at hkept
      rwa [h]
  origin s v u k hans := by
    rcases forceOnceWith_cases self id s with
      ⟨a, hmemo, h⟩ | ⟨-, a, t, l, hrun, h⟩ | ⟨-, e, t, l, -, h⟩
    · rw [h] at hans
      cases hans
      exact .of_promise hmemo
    · rw [h] at hans
      cases hans
      exact (hs _).origin s v t k hrun
    · rw [h] at hans
      cases hans

end Accounted

theorem KeepsAccount.native (hs : ∀ c, Accounted (self c)) (p : Native) (params : Value)
    (env : EnvId) : KeepsAccount Answer (m.applyNativeWith d self p params env)
      (m.applyNativeWith d self p params env) := by
  have hrespects : NativeRespects m m d d KeepsAccount :=
    ⟨sequential, rfl, fun ha => lift ha.touched⟩
  have hself := fun c => (hs c).keeps
  exact hrespects.applyNativeWith hself
    (sequential.forceWith hself (lift .refl) m.links) p params env

/-- **Every failure of a run has an origin.** -/
theorem traced_accounted (d : Nat) (c : Call) : Accounted (m.traced d c) := by
  induction d generalizing c with
  | zero => exact .enclose c ⟨.lift .refl, fun s v t l h => by cases h⟩
  | succ d ih =>
    cases c with
    | evaluate e env => exact .enclose _ (.evaluateWith m ih e env)
    | arguments args env => exact .enclose _ (.argumentsWith m ih args env)
    | deferred args env => exact .enclose _ (.deferredWith m ih args env)
    | force id => exact .enclose _ (.forceOnceWith ih id)
    | closure c params => exact .enclose _ (.applyClosureWith m ih c params)
    | native p params env => exact .enclose_native p params env (.native m ih p params env)

end Steps

/-! ## On the way outwards -/

/-- How a callee takes its arguments, if it has them prepared: deferred or evaluated. -/
def Value.takesDeferred? : Value → Option Bool
  | .native p => if p.isLazy then none else some false
  | .closure _ _ _ _ isLazy => some isLazy
  | _ => none

namespace Machine

/-- How a call ends whose head failed: without a value, after a note that quotes the call. -/
def headFailed (m : Machine) (depth : Nat) (e : Value) (t : Store) :
    EStateM.Result Stop Store Answer :=
  match t.render depth e with
  | .ok text => .ok .failure (m.noted .evaluator ("Callee failed to evaluate in " ++ text) t)
  | .error why => .error why.stop t

/-- The value of a failure does not leave the call that it brings down. Of the arguments each is
a level deeper than the one before it. -/
structure DropsFailures (m : Machine) (d : Nat) : Prop where
  head (mark : Mark) (head args : Value) (env : EnvId) (s : Store) (v : Value) (t : Store) :
    m.evaluate d head env s = .ok ⟨v, false⟩ t →
    m.evaluate (d + 1) (.pair mark head args) env s = m.headFailed d (.pair mark head args) t
  arguments (mark : Mark) (head args callee : Value) (env : EnvId) (s t : Store) (isLazy : Bool)
    (v : Value) (u : Store) : m.evaluate d head env s = .ok (.success callee) t →
    callee.takesDeferred? = some isLazy →
    m.perform d (.parameters isLazy args env) t = .ok ⟨v, false⟩ u →
    m.evaluate (d + 1) (.pair mark head args) env s = .ok .failure u
  argument (mark : Mark) (head args callee : Value) (env : EnvId) (s t : Store)
    (before : List Value) (e : Value) (after : List Value) (runs : List Made) (vs : List Value)
    (u : Store) (v : Value) (w : Store) : m.evaluate (d + 1) head env s = .ok (.success callee) t →
    callee.takesDeferred? = some false → args.elements = before ++ e :: after →
    EvaluatesAll m env d before t runs vs u →
    m.evaluate (d - before.length) e env u = .ok ⟨v, false⟩ w →
    m.evaluate (d + 2) (.pair mark head args) env s = .ok .failure w

/-- Closures, promises and `eval` fail as what they evaluate fails. -/
structure PassesFailures (m : Machine) (d : Nat) : Prop where
  closure (c : Closure) (params : Value) (env : EnvId) (s t : Store) (v : Value) (u : Store) :
    m.enter c params s = .ok (env, true) t → m.evaluate d c.body env t = .ok ⟨v, false⟩ u →
    m.applyClosure (d + 1) c params s = .ok ⟨v, false⟩ u
  call (mark : Mark) (head args : Value) (c : Closure) (env : EnvId) (s t : Store)
    (params : Answer) (u : Store) (v : Value) (w : Store) :
    m.evaluate d head env s = .ok (.success c.toValue) t →
    m.perform d (.parameters c.isLazy args env) t = .ok params u → params.ok = true →
    m.applyClosure d c params.value u = .ok ⟨v, false⟩ w →
    m.evaluate (d + 1) (.pair mark head args) env s = .ok ⟨v, false⟩ w
  promise (id : PromiseId) (env : EnvId) (s : Store) (v : Value) (t : Store) :
    (s.promise id).memo = none →
    m.evaluate d (s.promise id).expression (s.promise id).env s = .ok ⟨v, false⟩ t →
    m.evaluate (d + 2) (.promise id) env s = .ok ⟨v, false⟩ (t.memoise id ⟨v, false⟩)
  stored (id : PromiseId) (env : EnvId) (s : Store) (v : Value) :
    (s.promise id).memo = some ⟨v, false⟩ →
    m.evaluate (d + 2) (.promise id) env s = .ok ⟨v, false⟩ s
  eval (l : Bootstrap.Layer) (x : Value) (env : EnvId) (s : Store) (v : Value) (t : Store) :
    m.library Bootstrap.key = Bootstrap.eval → s.HasEval env →
    m.evaluate d x env s = .ok ⟨v, false⟩ t →
    m.evaluate (d + 2) (l.around x) env s = .ok ⟨v, false⟩ (m.evalFailed 1 t)

section Outwards
variable {m : Machine} {d : Nat} {mark : Mark} {head args callee : Value} {env : EnvId}
  {s t u : Store} {v : Value}

theorem evaluate_of_head (h : m.evaluate d head env s = .ok (.success callee) t) :
    m.evaluate (d + 1) (.pair mark head args) env s =
      m.applyWith d (m.perform d) (.pair mark head args) callee args env t :=
  EvalM.bind_ok h

theorem evaluate_of_headFailed (h : m.evaluate d head env s = .ok ⟨v, false⟩ t) :
    m.evaluate (d + 1) (.pair mark head args) env s = m.headFailed d (.pair mark head args) t := by
  refine (EvalM.bind_ok h).trans ?_
  unfold headFailed
  cases hrender : t.render d (.pair mark head args) with
  | ok text =>
    have htext : EvalM.render d (.pair mark head args) t = .ok text t := by
      rw [EvalM.render, hrender]
    exact EvalM.bind_ok htext
  | error why =>
    have htext : EvalM.render d (.pair mark head args) t = .error why.stop t := by
      rw [EvalM.render, hrender]
    exact EvalM.bind_error htext

theorem applyWith_of_argumentsFailed {e : Value} {isLazy : Bool}
    (hcallee : callee.takesDeferred? = some isLazy)
    (h : m.perform d (.parameters isLazy args env) t = .ok ⟨v, false⟩ u) :
    m.applyWith d (m.perform d) e callee args env t = .ok .failure u := by
  cases callee with
  | native p =>
    simp only [Value.takesDeferred?] at hcallee
    split at hcallee
    · cases hcallee
    · next hlazy =>
      cases hcallee
      unfold applyWith
      simp only [hlazy]
      exact EvalM.bind_ok h
  | closure =>
    cases hcallee
    exact EvalM.bind_ok h
  | _ => cases hcallee

theorem dropsFailures (m : Machine) (d : Nat) : m.DropsFailures d where
  head _ _ _ _ _ _ _ hhead := evaluate_of_headFailed hhead
  arguments _ _ _ _ _ _ _ _ _ _ hhead hcallee hparams :=
    (evaluate_of_head hhead).trans (applyWith_of_argumentsFailed hcallee hparams)
  argument mark head args callee env s t before e after runs vs u v w hhead hcallee hsplit hall
      he := by
    obtain ⟨c, hc, hout⟩ := exists_evaluates m (d - before.length) e env u
    have hfailed : ¬ c.Succeeded := by
      rintro ⟨a, x, ha, hok⟩
      rw [hout, he] at ha
      cases ha
      cases hok
    have hlist := (ArgumentsEnd.of_first hsplit hall hc hfailed).outcome
    rw [hout, he] at hlist
    exact (evaluate_of_head hhead).trans (applyWith_of_argumentsFailed hcallee hlist)

theorem passesFailures (m : Machine) (d : Nat) : m.PassesFailures d where
  closure c params env s t v u henter hbody := (EvalM.bind_ok henter).trans hbody
  call mark head args c env s t params u v w hhead hparams hok hcall := by
    refine (evaluate_of_head hhead).trans ((EvalM.bind_ok hparams).trans ?_)
    rw [hok]
    exact hcall
  promise id env s v t hmemo hrun := (forceOnceWith_of_none hmemo).trans (EvalM.bind_ok hrun)
  stored id env s v hmemo := forceOnceWith_of_some hmemo
  eval l x env s v t hlib heval hrun := by
    have hform := evaluate_nested hlib heval [l] d (x := x)
    rwa [hrun] at hform

end Outwards

end Machine

/-- **The values of failures have origins.** If a call of a run, an evaluation among them,
answers by a failure with a value, the value is nil, or a native of the run failed with it,
or a promise held it as a failure before the run. A call whose head or list of arguments
fails comes to nil, whatever they failed with; only that, for a failing head, the note
that quotes the call has to be written. Closures, promises and `eval` hand on the value
that they are given by a failure. -/
theorem failures_have_origins (m : Machine) (d : Nat) :
    (∀ c s v t, m.perform d c s = .ok ⟨v, false⟩ t → FailureOrigin s (m.traced d c s).2 v) ∧
      m.DropsFailures d ∧ m.PassesFailures d := by
  refine ⟨fun c s v t h => ?_, m.dropsFailures d, m.passesFailures d⟩
  rw [← traced_fst] at h
  exact (traced_accounted m d c).origin s v t _ (Prod.ext h rfl)

namespace Prelude

/-- A promise for the call of a native that fails, and one that holds a failure. -/
def failures : Store where
  mappings := #[frame ["fail"]]
  environments := #[⟨⟨0⟩, none⟩]
  promises := #[⟨failCall, ⟨0⟩, none⟩, ⟨.nil, ⟨0⟩, some ⟨.integer 5, false⟩⟩]

/-- The call of a closure that has a promise for its body. -/
def throughClosure (id : PromiseId) : Value := form [.closure ⟨0⟩ [] (.promise id) ⟨0⟩ false]

end Prelude

/-- A closure hands on what the native behind its promise failed with, or what the promise
held before; a call with such a call in its head fails with nil. -/
theorem throughClosure_origins :
    (∃ t, Prelude.machine.evaluate 8 (Prelude.throughClosure ⟨0⟩) ⟨0⟩ Prelude.failures =
          .ok ⟨.string "boom", false⟩ t ∧
        FailureOrigin Prelude.failures (Prelude.machine.traced 8
          (.evaluate (Prelude.throughClosure ⟨0⟩) ⟨0⟩) Prelude.failures).2 (.string "boom")) ∧
      (∃ t, Prelude.machine.evaluate 8 (Prelude.throughClosure ⟨1⟩) ⟨0⟩ Prelude.failures =
          .ok ⟨.integer 5, false⟩ t ∧
        FailureOrigin Prelude.failures (Prelude.machine.traced 8
          (.evaluate (Prelude.throughClosure ⟨1⟩) ⟨0⟩) Prelude.failures).2 (.integer 5)) ∧
      ∃ t, Prelude.machine.evaluate 9 (form [Prelude.throughClosure ⟨1⟩]) ⟨0⟩ Prelude.failures =
        .ok .failure t := by
  obtain ⟨horigin, hdrops, -⟩ := failures_have_origins Prelude.machine 8
  obtain ⟨t, ht⟩ : ∃ t, Prelude.machine.perform 8 (.evaluate (Prelude.throughClosure ⟨0⟩) ⟨0⟩)
      Prelude.failures = .ok ⟨.string "boom", false⟩ t := ⟨_, rfl⟩
  obtain ⟨u, hu, hrender⟩ : ∃ u, Prelude.machine.perform 8
      (.evaluate (Prelude.throughClosure ⟨1⟩) ⟨0⟩) Prelude.failures = .ok ⟨.integer 5, false⟩ u ∧
      u.render 8 (form [Prelude.throughClosure ⟨1⟩]) = .ok "((??? _) _)" := ⟨_, rfl, rfl⟩
  refine ⟨⟨t, ht, horigin _ _ _ t ht⟩, ⟨u, hu, horigin _ _ _ u hu⟩, ?_⟩
  have hcall := hdrops.head ⟨0⟩ (Prelude.throughClosure ⟨1⟩) .nil ⟨0⟩ _ _ u hu
  rw [Machine.headFailed, show Value.pair ⟨0⟩ (Prelude.throughClosure ⟨1⟩) .nil =
    form [Prelude.throughClosure ⟨1⟩] from rfl, hrender] at hcall
  exact ⟨_, hcall⟩

namespace Prelude

/-- The loose knot, with a native that fails. -/
def failingLooseKnot : Store :=
  { looseKnot with mappings := #[(frame ["fail"]).insert "t" (.promise ⟨0⟩)] }

/-- The knot, with a native that fails. -/
def failingKnot : Store := failingLooseKnot.memoise ⟨0⟩ (.success (.promise ⟨0⟩))

/-- A call of what the failing native returns, on the knot. -/
def failingHead : Value := .pair ⟨0⟩ failCall (form [.promise ⟨0⟩])

theorem render_failingHead (d : Nat) : failingKnot.render d failingHead = .error .tooDeep := by
  rcases d with _ | _ | _ | d
  · rfl
  · rfl
  · rfl
  -- The head is written; the promise in the tail is opened, and is itself again.
  have hopened : failingKnot.renderAt d .alone (failingKnot.promise ⟨0⟩).shown =
      .error .tooDeep := render_own_result rfl d
  simp only [failingHead, failCall, form, List.foldr, Store.render, Store.renderAt,
    Value.renderWith, hopened]
  rfl

end Prelude

/-- The head of the call fails with a text. The call does not come to nil, but goes too deep
at every depth, since its note would have to quote a promise that is its own result. -/
theorem failingHead_stops :
    Prelude.machine.perform 2 (.force ⟨0⟩) Prelude.failingLooseKnot =
        .ok (.success (.promise ⟨0⟩)) Prelude.failingKnot ∧
      (∀ d, Prelude.machine.evaluate (d + 2) Prelude.failCall ⟨0⟩ Prelude.failingKnot =
        .ok ⟨.string "boom", false⟩ Prelude.failingKnot) ∧
      ∀ d, Prelude.machine.evaluate d Prelude.failingHead ⟨0⟩ Prelude.failingKnot =
        .error .tooDeep Prelude.failingKnot := by
  have hfail : ∀ d, Prelude.machine.evaluate (d + 2) Prelude.failCall ⟨0⟩ Prelude.failingKnot =
      .ok ⟨.string "boom", false⟩ Prelude.failingKnot := fun _ => rfl
  refine ⟨rfl, hfail, fun d => ?_⟩
  rcases d with _ | _ | _ | d
  · rfl
  · rfl
  · rfl
  · refine (Machine.evaluate_of_headFailed (hfail d)).trans ?_
    have hrender := Prelude.render_failingHead (d + 2)
    unfold Prelude.failingHead at hrender
    rw [Machine.headFailed, hrender]
    rfl

end LispCore
