import LispCore.Proofs.BigStep
import LispCore.Proofs.Session

/-! # Strict arity only rejects

A strict machine and a tolerant one differ in one place. When a closure meets its
parameters, the strict one reports a list that does not fit the closure's names,
and the tolerant one takes whatever there is. So the two runs of a call go the same
way up to the first closure call that the strict machine rejects
(`traced_unlessRejected`), and where it rejects none they are the same run, calls,
store, journal and effects included (`strictArity_only_rejects`).

A strict run that ends well need not be one of these. A native may go on after a
failure, and then the strict machine answers otherwise than the tolerant one, both
with success. -/
namespace LispCore

namespace Machine

/-- The machine that rejects a closure call whose parameters do not fit. -/
def strict (m : Machine) : Machine := { m with strictArity := true }

/-- The machine that takes as many parameters as there are. -/
def tolerant (m : Machine) : Machine := { m with strictArity := false }

/-- What a closure reports of its parameters when it meets them. -/
def accepts (m : Machine) (c : Closure) (params : Value) (s : Store) : Bool :=
  match m.enter c params s with
  | .ok (_, ok) _ => ok
  | .error _ _ => false

variable {m : Machine} {c : Closure} {params : Value} {s : Store}

theorem enter_strict_of_fits (h : c.Fits params) :
    m.strict.enter c params = m.tolerant.enter c params := by
  funext s
  rw [enter_of_fits (fun _ => h), enter_of_fits (fun _ => h)]

theorem accepts_strict_iff : m.strict.accepts c params s = true ↔ c.Fits params := by
  unfold accepts
  by_cases h : c.Fits params
  · simp [enter_of_fits (m := m.strict) (fun _ => h), h]
  · simp [enter_of_misfit (m := m.strict) rfl h, h]

end Machine

namespace Made

/-- The call applies the closure and comes to meet its parameters, since there is a
level left for it. -/
structure Meets (b : Made) (c : Closure) (params : Value) : Prop where
  call : b.call = .closure c params
  level : b.outcome ≠ .error .tooDeep b.start

/-- The call applies a closure to parameters that do not fit it, and fails at that with
nothing called inside. -/
structure Rejects (b : Made) (c : Closure) (params : Value) : Prop where
  call : b.call = .closure c params
  misfit : ¬ c.Fits params
  failed : ∃ t, b.outcome = .ok .failure t
  inner : b.inner = []

theorem Rejects.meets {b : Made} {c : Closure} {params : Value} (h : b.Rejects c params) :
    b.Meets c params := by
  obtain ⟨t, ht⟩ := h.failed
  exact ⟨h.call, by simp [ht]⟩

end Made

/-- Unless `x` has a closure call that is rejected, `y` ends in the same way and makes
the same calls. -/
def UnlessRejected (α : Type) (x y : TraceM α) : Prop :=
  ∀ s, (∃ b ∈ (x s).2, ∃ c params, b.Rejects c params) ∨ y s = x s

namespace UnlessRejected
variable {α : Type}

theorem refl (x : TraceM α) : UnlessRejected α x x := fun _ => .inr rfl

theorem sequential : Sequential UnlessRejected where
  pure a := refl (pure a)
  bind {_ _ x _ f _} hx hf := by
    intro s
    rcases hx s with ⟨b, hb, hrej⟩ | hsame
    · -- a rejected call stays in the trace, whether the first part returned or not
      refine .inl ⟨b, ?_, hrej⟩
      rcases x.cases s with ⟨a, t, l, h⟩ | ⟨e, t, l, h⟩
      · rw [TraceM.bind_ok h]
        rw [h] at hb
        exact List.mem_append_left _ hb
      · rw [TraceM.bind_error h]
        rwa [h] at hb
    · rcases x.cases s with ⟨a, t, l, h⟩ | ⟨e, t, l, h⟩
      · rw [TraceM.bind_ok h, TraceM.bind_ok (hsame.trans h)]
        rcases hf a t with ⟨b, hb, hrej⟩ | hrest
        · exact .inl ⟨b, List.mem_append_right _ hb, hrej⟩
        · rw [hrest]
          exact .inr rfl
      · rw [TraceM.bind_error h, TraceM.bind_error (hsame.trans h)]
        exact .inr rfl

theorem enclose {x y : TraceM Answer} (call : Call) (h : UnlessRejected Answer x y) :
    UnlessRejected Answer (.enclose call x) (.enclose call y) := by
  intro s
  rcases h s with ⟨b, hb, hrej⟩ | hsame
  · exact .inl ⟨b, List.mem_append_left _ hb, hrej⟩
  · simp [TraceM.enclose, hsame]

/-- The evaluator looks at the arity setting only where a closure meets its parameters. -/
theorem evaluator (m : Machine) (d : Nat) :
    EvaluatorRespects m.strict m.tolerant d d UnlessRejected where
  toSequential := sequential
  action h := by
    cases h <;> exact refl _

/-- A native does not see the arity setting. -/
theorem native (m : Machine) (d : Nat) :
    NativeRespects m.strict m.tolerant d d UnlessRejected where
  toSequential := sequential
  library := rfl
  action h := by
    cases h <;> exact refl _

/-- A closure call that does not fit is rejected by the strict machine, and one that fits
is made alike by both. -/
theorem closure (m : Machine) {self self' : Call → TraceM Answer}
    (hs : ∀ c, UnlessRejected Answer (self c) (self' c)) (c : Closure) (params : Value) :
    UnlessRejected Answer
      (.enclose (.closure c params) (m.strict.applyClosureWith self c params))
      (.enclose (.closure c params) (m.tolerant.applyClosureWith self' c params)) := by
  by_cases hfits : c.Fits params
  · refine enclose _ (sequential.applyClosureWith hs c params ?_)
    rw [Machine.enter_strict_of_fits hfits]
    exact refl _
  · intro s
    have henter := Machine.enter_of_misfit (m := m.strict) rfl hfits s
    have hrun : m.strict.applyClosureWith self c params s = (.ok .failure
        (m.strict.noted .application (c.misfitText params)
          (s.newChild c.env (c.bindings params)).2), []) := by
      unfold Machine.applyClosureWith
      rw [TraceM.bind_ok (congrArg (·, []) henter)]
      rfl
    refine .inl ⟨_, List.mem_append_right _ (List.mem_singleton.mpr rfl), c, params, ?_⟩
    exact ⟨rfl, hfits, ⟨_, congrArg Prod.fst hrun⟩, congrArg Prod.snd hrun⟩

end UnlessRejected

/-- **Both machines make the same run up to the first rejection.** -/
theorem traced_unlessRejected (m : Machine) (d : Nat) (c : Call) :
    UnlessRejected Answer (m.strict.traced d c) (m.tolerant.traced d c) := by
  induction d generalizing c with
  | zero => exact .refl _
  | succ d ih =>
    have hq := UnlessRejected.sequential
    cases c with
    | evaluate e env => exact .enclose _ ((UnlessRejected.evaluator m d).evaluateWith ih e env)
    | arguments args env =>
      exact .enclose _ ((UnlessRejected.evaluator m d).argumentsWith ih args env)
    | deferred args env =>
      exact .enclose _ ((UnlessRejected.evaluator m d).deferredWith ih args env)
    | force id => exact .enclose _ (hq.forceOnceWith ih id (.refl _) fun _ => .refl _)
    | closure c params => exact UnlessRejected.closure m ih c params
    | native p params env =>
      have hforce := hq.forceWith ih (.refl _) m.links
      exact .enclose _ ((UnlessRejected.native m d).applyNativeWith ih hforce p params env)

/-- **Strict arity only rejects.** If every closure that meets its parameters in a strict
run accepts them, then the tolerant run is the same: the same answer or stop, the same
store with its journal and its effects, and the same calls. So where the two runs differ,
the strict one has a closure call whose parameters are not a proper list of as many
elements as the closure has names, and that call failed on the spot. -/
theorem strictArity_only_rejects (m : Machine) (d : Nat) (call : Call) (s : Store) :
    ((∀ b ∈ (m.strict.traced d call s).2, ∀ c params, b.Meets c params →
          m.strict.accepts c params b.start = true) →
        m.tolerant.perform d call s = m.strict.perform d call s ∧
          m.tolerant.traced d call s = m.strict.traced d call s) ∧
      (m.tolerant.perform d call s ≠ m.strict.perform d call s →
        ∃ b ∈ (m.strict.traced d call s).2, ∃ c params, b.Rejects c params) := by
  refine ⟨fun haccepted => ?_, fun hdiffer => ?_⟩
  · rcases traced_unlessRejected m d call s with ⟨b, hb, c, params, hrej⟩ | hsame
    · have hfits := Machine.accepts_strict_iff.mp (haccepted b hb c params hrej.meets)
      exact absurd hfits hrej.misfit
    · exact ⟨by rw [← traced_fst, hsame, traced_fst], hsame⟩
  · rcases traced_unlessRejected m d call s with hrej | hsame
    · exact hrej
    · exact absurd (by rw [← traced_fst, hsame, traced_fst]) hdiffer

namespace Prelude

/-- An environment with natives that make closures and promises and look into a promise. -/
def looking : Store where
  mappings := #[frame ["pick-first", "delay", "lambda"]]
  environments := #[⟨⟨0⟩, none⟩]

/-- A call of a closure with two names. -/
def callOfTwo (args : List Value) : Value :=
  form (form [.symbol "lambda", form [.symbol "a", .symbol "b"], .symbol "a"] :: args)

/-- Looks into a promise of such a call. -/
def lookAtCall (args : List Value) : Value :=
  form [.symbol "pick-first", form [.symbol "delay", callOfTwo args]]

/-- The answer of a run, if it returned and answered an atom. -/
def answered? : EStateM.Result Stop Store Answer → Option (Bool × Option Int)
  | .ok ⟨.integer n, ok⟩ _ => some (ok, some n)
  | .ok ⟨.nil, ok⟩ _ => some (ok, none)
  | _ => none

end Prelude

/-- The call applies no closure to parameters that do not fit. -/
def Made.fits (b : Made) : Bool :=
  match b.call with
  | .closure c params => params.ending.isNil && params.elements.length == c.params.length
  | _ => true

theorem Made.fits_of_meets {b : Made} {c : Closure} {params : Value} (h : b.fits = true)
    (hmeets : b.Meets c params) : c.Fits params := by
  rw [fits, hmeets.call] at h
  simpa [Closure.Fits, isNil_iff] using h

/-- With two arguments both machines make the same run, in which the closure is called. With
one argument both answer with success, and not alike, since the strict one takes the failed call
for nil; so the call is rejected in the strict run. -/
theorem lookAtCall_rejected :
    ((∀ b ∈ (Prelude.machine.strict.traced 20
          (.evaluate (Prelude.lookAtCall [.integer 5, .integer 6]) ⟨0⟩) Prelude.looking).2,
          ∀ c params, b.Meets c params → Prelude.machine.strict.accepts c params b.start = true) ∧
        Prelude.answered? (Prelude.machine.tolerant.perform 20
          (.evaluate (Prelude.lookAtCall [.integer 5, .integer 6]) ⟨0⟩) Prelude.looking) =
            some (true, some 5)) ∧
      Prelude.answered? (Prelude.machine.strict.perform 20
          (.evaluate (Prelude.lookAtCall [.integer 5]) ⟨0⟩) Prelude.looking) = some (true, none) ∧
      Prelude.answered? (Prelude.machine.tolerant.perform 20
          (.evaluate (Prelude.lookAtCall [.integer 5]) ⟨0⟩) Prelude.looking) = some (true, some 5) ∧
      ∃ b ∈ (Prelude.machine.strict.traced 20
          (.evaluate (Prelude.lookAtCall [.integer 5]) ⟨0⟩) Prelude.looking).2,
        ∃ c params, b.Rejects c params := by
  have hall : ((Prelude.machine.strict.traced 20
      (.evaluate (Prelude.lookAtCall [.integer 5, .integer 6]) ⟨0⟩) Prelude.looking).2.all
        Made.fits) = true := by decide +kernel
  have haccepted : ∀ b ∈ (Prelude.machine.strict.traced 20
      (.evaluate (Prelude.lookAtCall [.integer 5, .integer 6]) ⟨0⟩) Prelude.looking).2,
      ∀ c params, b.Meets c params → Prelude.machine.strict.accepts c params b.start = true :=
    fun b hb c params hmeets => Machine.accepts_strict_iff.mpr
      (Made.fits_of_meets (List.all_eq_true.mp hall b hb) hmeets)
  have hanswer : Prelude.answered? (Prelude.machine.strict.perform 20
      (.evaluate (Prelude.lookAtCall [.integer 5, .integer 6]) ⟨0⟩) Prelude.looking) =
        some (true, some 5) := by decide +kernel
  have hstrict : Prelude.answered? (Prelude.machine.strict.perform 20
      (.evaluate (Prelude.lookAtCall [.integer 5]) ⟨0⟩) Prelude.looking) = some (true, none) := by
    decide +kernel
  have htolerant : Prelude.answered? (Prelude.machine.tolerant.perform 20
      (.evaluate (Prelude.lookAtCall [.integer 5]) ⟨0⟩) Prelude.looking) =
        some (true, some 5) := by decide +kernel
  have hsame := (strictArity_only_rejects Prelude.machine 20
    (.evaluate (Prelude.lookAtCall [.integer 5, .integer 6]) ⟨0⟩) Prelude.looking).1 haccepted
  have hrejected := (strictArity_only_rejects Prelude.machine 20
    (.evaluate (Prelude.lookAtCall [.integer 5]) ⟨0⟩) Prelude.looking).2
  refine ⟨⟨haccepted, by rw [hsame.1]; exact hanswer⟩, hstrict, htolerant, hrejected ?_⟩
  intro heq
  rw [heq, hstrict] at htolerant
  cases htolerant

end LispCore
