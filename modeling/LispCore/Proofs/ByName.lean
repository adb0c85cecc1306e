import LispCore.Proofs.Adequacy
import LispCore.Proofs.SideBySide

/-! # Evaluation by name

The evaluator with another way of forcing a promise: `Machine.performBy` is the same
program with the forcing as a parameter. With `forceOnceWith` it is the evaluator
(`perform_eq`); with `reevaluateWith`, which evaluates the expression of a promise every
time and stores nothing, it evaluates by name.

Texts take depth as calls do, and a text that no depth can write ends a run in the same
way as calls without end. So that the two can be told apart, the limit of the calls, what
happens beyond it and the depth for texts are parameters too. A run that is ended by a
text, and not by its calls or its chains of promises, is one that `StopsAtText`. -/
namespace LispCore

namespace Machine

/-- A way of forcing a promise, given how calls are made. -/
abbrev Forcing := (Call → EvalM Answer) → PromiseId → EvalM Answer

/-- The answer of a promise, evaluated anew. -/
def reevaluateWith : Forcing := fun self id => do
  let p ← EvalM.read (·.promise id)
  self (.evaluate p.expression p.env)

/-- Makes a call with `depth` levels left; beyond them it ends with `exhausted`. On the
level `d` texts have the depth `texts d`. -/
def performBy (m : Machine) (force : Forcing) (exhausted : Stop) (texts : Nat → Nat) :
    (depth : Nat) → Call → EvalM Answer
  | 0, _ => .stop exhausted
  | depth + 1, c =>
    m.stepBy (force (m.performBy force exhausted texts depth)) (texts depth)
      (m.performBy force exhausted texts depth) c

/-- Evaluation followed by forcing. -/
def evaluateBy (m : Machine) (force : Forcing) (exhausted : Stop) (texts : Nat → Nat)
    (depth : Nat) (e : Value) (env : EnvId) : EvalM Answer :=
  forcedWith (m.performBy force exhausted texts depth) m.links e env

/-- Evaluation by name followed by forcing. -/
def evaluateByName (m : Machine) (depth : Nat) (e : Value) (env : EnvId) : EvalM Answer :=
  m.evaluateBy reevaluateWith .tooDeep id depth e env

section Equations
variable (m : Machine) (depth : Nat)

theorem perform_eq (c : Call) :
    m.perform depth c = m.performBy (forceOnceWith (M := EvalM)) .tooDeep id depth c := by
  induction depth generalizing c with
  | zero => rfl
  | succ depth ih =>
    have hself : m.perform depth = m.performBy forceOnceWith .tooDeep id depth := funext ih
    simp only [perform, performBy, step_eq_stepBy, hself]
    rfl

theorem evaluateForced_eq (e : Value) (env : EnvId) :
    m.evaluateForced depth e env = m.evaluateBy forceOnceWith .tooDeep id depth e env := by
  have hself : m.perform depth = m.performBy forceOnceWith .tooDeep id depth :=
    funext (m.perform_eq depth)
  unfold evaluateBy
  rw [← hself]
  rfl

end Equations

end Machine

/-! ## Larger limits -/

theorem Respects.stepBy {m m' : Machine} {d d' : Nat} {R : ∀ α : Type, EvalM α → EvalM α → Prop}
    {self self' : Call → EvalM Answer} {promised promised' : PromiseId → EvalM Answer}
    (h : Respects m m' d d' R) (hs : ∀ c, R Answer (self c) (self' c))
    (hf : ∀ v, R Answer (Machine.forceWith self m.links v) (Machine.forceWith self' m'.links v))
    (hp : ∀ id, R Answer (promised id) (promised' id)) (c : Call) :
    R Answer (m.stepBy promised d self c) (m'.stepBy promised' d' self' c) := by
  cases c with
  | evaluate e env => exact h.evaluator.evaluateWith hs e env
  | arguments args env => exact h.evaluator.argumentsWith hs args env
  | deferred args env => exact h.evaluator.deferredWith hs args env
  | force id => exact hp id
  | closure c params => exact h.evaluator.applyClosureWith hs c params (h.enter c params)
  | native p params env => exact h.native.applyNativeWith hs hf p params env

/-- Where `x` answers, `y` gives the same answer. -/
abbrev Finds (α : Type) (x y : EvalM α) : Prop := Below (fun _ => True) α x y

/-- A way of forcing that finds what its calls find. -/
def Machine.Forcing.Steady (force : Machine.Forcing) : Prop :=
  ∀ ⦃self self' : Call → EvalM Answer⦄, (∀ c, Finds Answer (self c) (self' c)) →
    ∀ id, Finds Answer (force self id) (force self' id)

theorem steady_forceOnceWith :
    Machine.Forcing.Steady (Machine.forceOnceWith (M := EvalM)) :=
  fun _ _ hs id => Below.sequential.forceOnceWith hs id (.refl _) fun _ => .refl _

theorem steady_reevaluateWith : Machine.Forcing.Steady Machine.reevaluateWith :=
  fun _ _ hs _ => (Below.refl _).bind fun _ => hs _

namespace Machine
variable {force : Forcing} {x x' : Stop} {f f' : Nat → Nat} {k n d d' : Nat}

/-- **Larger limits find what smaller ones do**, if the second run has at least `offset`
levels more and writes texts at least as deep there. -/
theorem performBy_finds (m : Machine) (hforce : force.Steady) (offset : Nat) (hk : k ≤ n)
    (hd : d + offset ≤ d') (hf : ∀ i j, i < d → i + offset ≤ j → f i ≤ f' j) (c : Call) :
    Finds Answer ((m.withLinks k).performBy force x f d c)
      ((m.withLinks n).performBy force x' f' d' c) := by
  induction d generalizing d' c with
  | zero => exact fun s => .inl ⟨x, s, trivial, rfl⟩
  | succ d ih =>
    obtain ⟨e, rfl⟩ : ∃ e, d' = e + 1 := ⟨d' - 1, by omega⟩
    have hself : ∀ c, Finds Answer ((m.withLinks k).performBy force x f d c)
        ((m.withLinks n).performBy force x' f' e c) :=
      fun c => ih (by omega) (fun i j hi => hf i j (by omega)) c
    have htexts : f d ≤ f' e := hf d e (by omega) (by omega)
    exact (m.below_respects htexts (.inl trivial)).stepBy hself
      (fun v => forceWith_below hself hk (.inl trivial) v) (fun id => hforce hself id) c

theorem evaluateBy_finds (m : Machine) (hforce : force.Steady) (offset : Nat) (hk : k ≤ n)
    (hd : d + offset ≤ d') (hf : ∀ i j, i < d → i + offset ≤ j → f i ≤ f' j) (e : Value)
    (env : EnvId) :
    Finds Answer ((m.withLinks k).evaluateBy force x f d e env)
      ((m.withLinks n).evaluateBy force x' f' d' e env) := by
  have hself : ∀ c, Finds Answer ((m.withLinks k).performBy force x f d c)
      ((m.withLinks n).performBy force x' f' d' c) :=
    fun c => m.performBy_finds hforce offset hk hd hf c
  refine (hself _).bind fun a => ?_
  split
  · exact forceWith_below hself hk (.inl trivial) _
  · exact .refl _

end Machine

/-! ## Limits apart -/

/-- The depth for calls, the links of a machine, which also bound its texts, and the links
of one chain. -/
structure Limits where
  depth : Nat
  links : Nat
  chain : Nat

namespace Machine

/-- Makes a call with limits apart. A run whose calls or chains go on beyond the limits is
unfinished. -/
def callWithin (m : Machine) (force : Forcing) (i : Limits) : Call → EvalM Answer :=
  (m.withLinks i.links).performBy force .unfinished (fun _ => i.links) i.depth

/-- Evaluation followed by forcing, with limits apart. -/
def evaluateWithin (m : Machine) (force : Forcing) (i : Limits) (e : Value) (env : EnvId) :
    EvalM Answer :=
  (m.withLinks i.links).evaluateBy force .unfinished (fun _ => i.links) i.depth e env

end Machine

/-- The family of computations comes to the answer within all large enough limits. -/
def Reaches {α : Type} (y : Limits → EvalM α) (s : Store) (a : α) (t : Store) : Prop :=
  Eventually fun d n k => y ⟨d, n, k⟩ s = .ok a t

/-- The family of computations ends as where a text cannot be written, within all large
enough limits. -/
def Halts {α : Type} (y : Limits → EvalM α) (s : Store) : Prop :=
  Eventually fun d n k => ∃ (why : Unwritable) (u : Store), y ⟨d, n, k⟩ s = .error why.stop u

/-- The evaluation of an expression comes to a text that no depth can write. -/
def Machine.StopsAtText (m : Machine) (force : Machine.Forcing) (e : Value) (env : EnvId)
    (s : Store) : Prop :=
  Halts (fun i => m.evaluateWithin force i e env) s

section Families
variable {α β : Type} {y z : Limits → EvalM α} {g : Limits → α → EvalM β} {s t u : Store} {a a' : α}
  {b : β}

theorem Reaches.of_all (h : ∀ i, y i s = .ok a t) : Reaches y s a t :=
  Eventually.of_all fun d n k => h ⟨d, n, k⟩

theorem Reaches.bind (hy : Reaches y s a t) (hg : Reaches (fun i => g i a) t b u) :
    Reaches (fun i => y i >>= g i) s b u :=
  (Eventually.and hy hg).mono fun _ _ _ ⟨h, h'⟩ => (EvalM.bind_ok h).trans h'

theorem Reaches.bind_halts (hy : Reaches y s a t) (hg : Halts (fun i => g i a) t) :
    Halts (fun i => y i >>= g i) s :=
  (Eventually.and hy hg).mono fun _ _ _ ⟨h, why, u, h'⟩ => ⟨why, u, (EvalM.bind_ok h).trans h'⟩

theorem Halts.bind (hy : Halts y s) : Halts (fun i => y i >>= g i) s :=
  hy.mono fun _ _ _ ⟨why, u, h⟩ => ⟨why, u, EvalM.bind_error h⟩

/-- Something that holds within all large enough limits holds within some. -/
theorem Eventually.some {P : Nat → Nat → Nat → Prop} (h : Eventually P) :
    ∃ bound, P bound bound bound := by
  obtain ⟨bound, h⟩ := h
  exact ⟨bound, h _ _ _ (Nat.le_refl _) (Nat.le_refl _) (Nat.le_refl _)⟩

theorem Reaches.unique (h : Reaches y s a t) (h' : Reaches y s a' u) : a = a' ∧ t = u := by
  obtain ⟨bound, heq, heq'⟩ := (Eventually.and h h').some
  rw [heq] at heq'
  cases heq'
  exact ⟨rfl, rfl⟩

theorem Reaches.not_halts (h : Reaches y s a t) : ¬ Halts y s := by
  intro h'
  obtain ⟨bound, heq, why, u, heq'⟩ := (Eventually.and h h').some
  rw [heq] at heq'
  cases heq'

end Families

namespace Machine
variable {m : Machine} {force : Forcing} {s t : Store} {a : Answer}

/-- What a call answers within some limits, it answers within all larger ones. -/
theorem reaches_call (hforce : force.Steady) {i : Limits} {c : Call}
    (h : m.callWithin force i c s = .ok a t) :
    Reaches (fun i => m.callWithin force i c) s a t := by
  refine ⟨max i.depth i.links, fun d n _ hd hn _ => ?_⟩
  have hfind : Finds Answer (m.callWithin force i c) (m.callWithin force ⟨d, n, 0⟩ c) :=
    m.performBy_finds hforce 0 (show i.links ≤ n by omega) (show i.depth + 0 ≤ d by omega)
      (fun _ _ _ _ => show i.links ≤ n by omega) c
  exact hfind.ok h

/-- The evaluator completes exactly when it does with its limits apart. -/
theorem reaches_evaluate_iff (hforce : force.Steady) {e : Value} {env : EnvId} :
    Reaches (fun i => m.evaluateWithin force i e env) s a t ↔
      ∃ d n, (m.withLinks n).evaluateBy force .tooDeep id d e env s = .ok a t := by
  constructor
  · intro h
    obtain ⟨bound, h⟩ := h.some
    have hfind : Finds Answer (m.evaluateWithin force ⟨bound, bound, bound⟩ e env)
        ((m.withLinks bound).evaluateBy force .tooDeep id (bound + bound) e env) :=
      m.evaluateBy_finds hforce bound (Nat.le_refl _) (Nat.le_refl _)
        (fun i j _ hij => show bound ≤ j by omega) e env
    exact ⟨bound + bound, bound, hfind.ok h⟩
  · rintro ⟨d, n, h⟩
    refine ⟨max d n, fun d' n' k hd hn _ => ?_⟩
    have hfind : Finds Answer ((m.withLinks n).evaluateBy force .tooDeep id d e env)
        (m.evaluateWithin force ⟨d', n', k⟩ e env) :=
      m.evaluateBy_finds hforce 0 (show n ≤ n' by omega) (show d + 0 ≤ d' by omega)
        (fun i _ hi _ => show i ≤ n' by omega) e env
    exact hfind.ok h

end Machine

end LispCore
