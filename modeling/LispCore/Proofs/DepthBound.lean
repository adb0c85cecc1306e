import LispCore.Proofs.Limits
import LispCore.Proofs.Session

/-! # The depth bound is the only thing a deeper run can differ in

A run that ends otherwise than by exhausting its depth ends in the same way, with
the same store, under every larger depth (`larger_depth_same`). That holds of all
the ways into the evaluator. The store holds the journal and the effects, so these
are the same too; and so is the whole trace, which says in addition that the same
calls are made in the same order, each from the same store and with the same end.

For the trace the relation of `Below` is carried over to computations that keep
their calls (`TraceBelow`). Nothing catches a stop, so a call that went too deep
inside the run would have ended the run, and this is where the law of sequencing
needs the disjunction. -/
namespace LispCore

/-- Where `x` ends otherwise than by a stop of `E`, `y` ends in the same way and makes
the same calls. -/
def TraceBelow (E : Stop → Prop) (α : Type) (x y : TraceM α) : Prop :=
  ∀ s, (∃ e t, E e ∧ (x s).1 = .error e t) ∨ y s = x s

namespace TraceBelow
variable {E : Stop → Prop} {α β : Type}

theorem lift {x y : EvalM α} (h : Below E α x y) : TraceBelow E α (liftM x) (liftM y) := by
  intro s
  rcases h s with ⟨e, t, he, hx⟩ | hxy
  · exact .inl ⟨e, t, he, hx⟩
  · exact .inr (congrArg (·, []) hxy)

theorem sequential : Sequential (TraceBelow E) where
  pure _ := fun _ => .inr rfl
  bind {_ _ x _ f _} hx hf := by
    intro s
    rcases hx s with ⟨e, t, he, hstop⟩ | hsame
    · -- the first part went over the limit, and nothing catches that
      rcases x.cases s with ⟨a, t', l, h⟩ | ⟨e', t', l, h⟩
      · simp [h] at hstop
      · rw [h] at hstop
        cases hstop
        rw [TraceM.bind_error h]
        exact .inl ⟨e, t, he, rfl⟩
    · rcases x.cases s with ⟨a, t, l, h⟩ | ⟨e, t, l, h⟩
      · rw [TraceM.bind_ok h, TraceM.bind_ok (hsame.trans h)]
        rcases hf a t with hstop | hrest
        · exact .inl hstop
        · rw [hrest]
          exact .inr rfl
      · rw [TraceM.bind_error h, TraceM.bind_error (hsame.trans h)]
        exact .inr rfl

theorem enclose {x y : TraceM Answer} (call : Call) (h : TraceBelow E Answer x y) :
    TraceBelow E Answer (.enclose call x) (.enclose call y) := by
  intro s
  rcases h s with hstop | hsame
  · exact .inl hstop
  · simp [TraceM.enclose, hsame]

theorem respects (m : Machine) {d d' : Nat} (hd : d ≤ d') :
    Respects m m d d' (TraceBelow (· = .tooDeep)) := by
  have hbelow : Respects m m d d' (Below (· = .tooDeep)) := m.below_respects hd (.inl rfl)
  exact ⟨⟨sequential, fun h => lift (hbelow.evaluator.action h)⟩,
    fun c params => lift (hbelow.enter c params),
    ⟨sequential, rfl, fun h => lift (hbelow.native.action h)⟩⟩

end TraceBelow

/-- **A run that did not go too deep makes the same calls under a larger depth.** -/
theorem traced_below (m : Machine) {d d' : Nat} (hd : d ≤ d') (c : Call) :
    TraceBelow (· = .tooDeep) Answer (m.traced d c) (m.traced d' c) := by
  induction d generalizing d' c with
  | zero => exact fun s => .inl ⟨.tooDeep, s, rfl, rfl⟩
  | succ d ih =>
    obtain ⟨e, rfl⟩ : ∃ e, d' = e + 1 := ⟨d' - 1, by omega⟩
    have hde : d ≤ e := by omega
    have hs := fun c => ih hde c
    have hread : ∀ {α : Type} (x : EvalM α),
        TraceBelow (· = .tooDeep) α (liftM x) (liftM x) := fun x => .lift (.refl x)
    refine .enclose c ((TraceBelow.respects m hde).step hs ?_ (fun id => ?_) c)
    · exact TraceBelow.sequential.forceWith hs (hread _) m.links
    · exact TraceBelow.sequential.forceOnceWith hs id (hread _) fun _ => hread _

/-! ## Main result -/

/-- The run ended, and not for want of depth. -/
def WithinDepth {α : Type} (r : EStateM.Result Stop Store α) : Prop := ∀ t, r ≠ .error .tooDeep t

theorem WithinDepth.eq_of_below {α : Type} {x y : EvalM α} {s : Store} (hx : WithinDepth (x s))
    (h : Below (· = .tooDeep) α x y) : y s = x s := by
  rcases h s with ⟨e, t, rfl, hstop⟩ | hsame
  · exact absurd hstop (hx t)
  · exact hsame

/-- **Recursion limits are monotone.** Whatever is asked of the evaluator, if it ends under
a depth, by an answer or by an error that a native raised, then under every larger depth
it ends in the same answer or error and in the same store, the journal and the effects
included. The calls made on the way are the same as well. -/
theorem larger_depth_same (m : Machine) (d d' : Nat) (hd : d ≤ d') (s : Store) :
    (∀ e env, WithinDepth (m.evaluate d e env s) →
        m.evaluate d' e env s = m.evaluate d e env s) ∧
      (∀ args env, WithinDepth (m.evaluateArguments d args env s) →
        m.evaluateArguments d' args env s = m.evaluateArguments d args env s) ∧
      (∀ v, WithinDepth (m.force d v s) → m.force d' v s = m.force d v s) ∧
      (∀ v, WithinDepth (m.forcedValue d v s) → m.forcedValue d' v s = m.forcedValue d v s) ∧
      (∀ c params, WithinDepth (m.applyClosure d c params s) →
        m.applyClosure d' c params s = m.applyClosure d c params s) ∧
      ∀ c, WithinDepth (m.perform d c s) → m.traced d' c s = m.traced d c s := by
  have hperform : ∀ c, Below (· = .tooDeep) Answer (m.perform d c) (m.perform d' c) :=
    fun c => m.perform_below (E := (· = .tooDeep)) hd (.inl rfl) (Nat.le_refl m.links) (.inr rfl) c
  have hforce : ∀ v, Below (· = .tooDeep) Answer (m.force d v) (m.force d' v) :=
    fun v => m.force_below (E := (· = .tooDeep)) hd (.inl rfl) (Nat.le_refl m.links) (.inr rfl) v
  refine ⟨?_, ?_, ?_, ?_, ?_, ?_⟩
  · intro e env h
    exact h.eq_of_below (hperform (.evaluate e env))
  · intro args env h
    exact h.eq_of_below (hperform (.arguments args env))
  · intro v h
    exact h.eq_of_below (hforce v)
  · intro v h
    exact h.eq_of_below ((hforce v).bind fun a => .refl _)
  · intro c params h
    exact h.eq_of_below (hperform (.closure c params))
  · intro c h
    rcases traced_below m hd c s with ⟨e, t, rfl, hstop⟩ | hsame
    · rw [traced_fst] at hstop
      exact absurd hstop (h t)
    · exact hsame

/-! ## A sample -/

namespace Prelude

/-- An environment with natives that print, list and give up. -/
def printing : Store where
  mappings := #[frame ["tick", "list", "raise"]]
  environments := #[⟨⟨0⟩, none⟩]

/-- Prints a number and then gives up. -/
def printThenRaise : Value :=
  form [.symbol "list", form [.symbol "tick", .integer 7], form [.symbol "raise"]]

/-- How a run ended: out of depth, by a fault, or with an answer. With what was printed. -/
def ending? {α : Type} : EStateM.Result Stop Store α → Option String × List Int
  | .error .tooDeep t => (some "too deep", t.effects.toList.filterMap fun
      | .integer n => some n
      | _ => none)
  | .error (.raised _ text) t => (some text, t.effects.toList.filterMap fun
      | .integer n => some n
      | _ => none)
  | _ => (none, [])

theorem withinDepth_of_ending? {α : Type} {r : EStateM.Result Stop Store α}
    (h : (ending? r).1 ≠ some "too deep") : WithinDepth r := by
  intro t ht
  rw [ht] at h
  exact h rfl

end Prelude

/-- With two levels the run goes too deep, after it has printed nothing. Five levels are
enough for the native that gives up, and with more the run is the same. -/
theorem printThenRaise_deeper :
    (5 ≤ 40 ∧
        WithinDepth (Prelude.machine.evaluate 5 Prelude.printThenRaise ⟨0⟩ Prelude.printing)) ∧
      Prelude.ending? (Prelude.machine.evaluate 2 Prelude.printThenRaise ⟨0⟩ Prelude.printing) =
        (some "too deep", []) ∧
      Prelude.ending? (Prelude.machine.evaluate 40 Prelude.printThenRaise ⟨0⟩ Prelude.printing) =
        (some "raised by native", [7]) := by
  have hend : Prelude.ending?
      (Prelude.machine.evaluate 5 Prelude.printThenRaise ⟨0⟩ Prelude.printing) =
      (some "raised by native", [7]) := by decide +kernel
  have hwithin : WithinDepth
      (Prelude.machine.evaluate 5 Prelude.printThenRaise ⟨0⟩ Prelude.printing) := by
    apply Prelude.withinDepth_of_ending?
    simp [hend]
  refine ⟨⟨by decide, hwithin⟩, by decide +kernel, ?_⟩
  have hsame := (larger_depth_same Prelude.machine 5 40 (by decide) Prelude.printing).1
    Prelude.printThenRaise ⟨0⟩ hwithin
  rw [hsame]
  exact hend

end LispCore
