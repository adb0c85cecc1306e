import LispCore.Proofs.Founding
import LispCore.Proofs.NaturalPrelude

/-! # Interpreters that share a host

Two interpreters on one registry share its natives and live in one store, but neither
notices what the other does. However the steps of the two are interleaved, each gets the
replies that it gets when it is alone on the host, up to the naming of references
(`interleaving_invisible`).

A step defines a name, evaluates or runs an expression. What is defined or evaluated is made
by the host, which may make objects for it and use those of earlier replies of the same
interpreter (`Recipe`). It refers to nothing else but the natives of the registry if it
does the same under every renaming that keeps these (`Recipe.Nominal`).

The proof follows the two interpreters side by side with their counterparts alone. For
each there is a renaming of what it has made, from the store of its lonely counterpart
into the one they share, and the objects that the two renamings lead to are different
(`Shared`). A turn of one makes its own renaming grow and leaves the objects of the other
alone. -/
namespace LispCore

variable {fixed : Mark → Prop} {ρ σ : Renaming fixed}

/-! ## Steps -/

/-- What a host hears from an interpreter after a step. -/
inductive Reply where
  | defined
  | answered (a : Answer)
  | returned (v : Value)
  | stopped (stop : Stop)

/-- How a host makes the value or expression for a step: by a script, from the replies of the
interpreter so far and from its environment. -/
abbrev Recipe := List Reply → EnvId → Script Value

inductive Step where
  | define (name : String) (value : Recipe)
  | evaluate (expression : Recipe)
  | run (expression : Recipe)

namespace Step

def recipe : Step → Recipe
  | .define _ value => value
  | .evaluate expression => expression
  | .run expression => expression

/-- Makes what a recipe says. -/
def prepare (x : Script Value) : HostM Value :=
  HostM.eval fun m depth => m.runWith depth (m.perform depth) x

def perform (i : Interpreter) (past : List Reply) : Step → HostM Reply
  | .define name value => do
    let v ← prepare (value past i.env)
    i.define name v
    pure .defined
  | .evaluate expression => do
    let e ← prepare (expression past i.env)
    let a ← i.evaluate e
    pure (.answered a)
  | .run expression => do
    let e ← prepare (expression past i.env)
    let v ← i.run e
    pure (.returned v)

/-- Takes the step. That it stops is a reply as well, and the host goes on from there. -/
def take (i : Interpreter) (past : List Reply) (step : Step) (h : Host) : Reply × Host :=
  match step.perform i past h with
  | .ok reply h => (reply, h)
  | .error stop h => (.stopped stop, h)

end Step

/-- One more step of an interpreter, after the replies so far. -/
def Step.follow (i : Interpreter) (sofar : List Reply × Host) (step : Step) : List Reply × Host :=
  let (reply, h) := step.take i sofar.1 sofar.2
  (sofar.1 ++ [reply], h)

/-- What an interpreter hears that takes its steps alone. -/
def converse (i : Interpreter) (steps : List Step) (sofar : List Reply × Host) :
    List Reply × Host :=
  steps.foldl (Step.follow i) sofar

/-- One of two interpreters. -/
inductive Side where
  | first | second
  deriving DecidableEq

/-- A turn of one of two interpreters. -/
def takeTurn (who : Side → Interpreter) (sofar : (Side → List Reply) × Host)
    (turn : Side × Step) : (Side → List Reply) × Host :=
  let (replies, h) := turn.2.follow (who turn.1) (sofar.1 turn.1, sofar.2)
  (Function.update sofar.1 turn.1 replies, h)

/-- What two interpreters hear that take turns on one host. -/
def interleave (who : Side → Interpreter) (turns : List (Side × Step))
    (sofar : (Side → List Reply) × Host) : (Side → List Reply) × Host :=
  turns.foldl (takeTurn who) sofar

/-- The steps of one side, in their order. -/
def Side.steps (side : Side) (turns : List (Side × Step)) : List Step :=
  (turns.filter (·.1 = side)).map (·.2)

/-! ## Renamed replies -/

/-- The same reply, about renamed values. -/
inductive Reply.Renamed (ρ : Renaming fixed) : Reply → Reply → Prop
  | defined : Reply.Renamed ρ .defined .defined
  | answered {a a' : Answer} : (Likeness.renaming fixed).Answers ρ a a' →
      Reply.Renamed ρ (.answered a) (.answered a')
  | returned {v v' : Value} : LispCore.Renamed ρ v v' →
      Reply.Renamed ρ (.returned v) (.returned v')
  | stopped {stop stop' : Stop} : stop.Rel (LispCore.Renamed ρ) stop' →
      Reply.Renamed ρ (.stopped stop) (.stopped stop')

theorem Reply.Renamed.mono (h : ρ.Le σ) {r r' : Reply} (hr : r.Renamed ρ r') : r.Renamed σ r' := by
  cases hr with
  | defined => exact .defined
  | answered ha => exact .answered (ha.mono h)
  | returned hv => exact .returned (hv.mono h)
  | stopped hs => exact .stopped (hs.mono fun _ _ hv => hv.mono h)

/-- The recipe does the same from renamed replies: it refers to nothing but what the replies
and the environment lead to, and to the marks in `fixed`. -/
def Recipe.Nominal (fixed : Mark → Prop) (recipe : Recipe) : Prop :=
  ∀ (ρ : Renaming fixed) past past' env env', List.Forall₂ (Reply.Renamed ρ) past past' →
    ρ.object (.env env) (.env env') →
    (Likeness.renaming fixed).Scripts LispCore.Renamed ρ (recipe past env) (recipe past' env')

/-! ## Hosts and machines -/

/-- What a step does to the store, on a machine with a depth. -/
def Step.body (i : Interpreter) (past : List Reply) (m : Machine) (depth : Nat) :
    Step → EvalM Reply
  | .define name value => do
    let v ← m.runWith depth (m.perform depth) (value past i.env)
    EvalM.change (·.bind i.env name v)
    pure .defined
  | .evaluate expression => do
    let e ← m.runWith depth (m.perform depth) (expression past i.env)
    let a ← m.interpret depth e i.env
    pure (.answered a)
  | .run expression => do
    let e ← m.runWith depth (m.perform depth) (expression past i.env)
    let v ← m.runExpression depth e i.env
    pure (.returned v)

theorem Step.perform_eq (i : Interpreter) (past : List Reply) (step : Step) :
    step.perform i past = HostM.eval fun m depth => step.body i past m depth := by
  cases step with
  | define name value =>
    simp only [Step.perform, Step.prepare, Interpreter.define, HostM.act_eq_eval,
      HostM.pure_eq_eval, HostM.eval_bind]
    rfl
  | evaluate expression =>
    simp only [Step.perform, Step.prepare, Interpreter.evaluate, HostM.pure_eq_eval,
      HostM.eval_bind]
    rfl
  | run expression =>
    simp only [Step.perform, Step.prepare, Interpreter.run_eq, HostM.pure_eq_eval,
      HostM.eval_bind]
    rfl

theorem Step.take_eq (i : Interpreter) (past : List Reply) (step : Step) (h : Host) :
    step.take i past h =
      match step.body i past h.machine h.recursionLimit h.store with
      | .ok reply s => (reply, { h with store := s })
      | .error stop s => (.stopped stop, { h with store := s }) := by
  simp only [Step.take, Step.perform_eq, HostM.eval]
  cases step.body i past h.machine h.recursionLimit h.store <;> rfl

/-- A step changes nothing in the host but the store. -/
theorem Step.follow_host (i : Interpreter) (step : Step) (x : List Reply × Host) :
    ∃ s, (step.follow i x).2 = { x.2 with store := s } := by
  simp only [Step.follow, Step.take_eq]
  cases step.body i x.1 x.2.machine x.2.recursionLimit x.2.store with
  | ok reply s => exact ⟨s, rfl⟩
  | error stop s => exact ⟨s, rfl⟩

/-! ## One step -/

section Interpret
variable {m : Machine} (hlib : m.library.Nominal fixed) (d : Nat) {e e' : Value} {env env' : EnvId}

include hlib

theorem tandem_evaluateForced (he : Renamed ρ e e') (henv : ρ.object (.env env) (.env env')) :
    Tandem ρ (Likeness.renaming fixed).Answers (m.evaluateForced d e env)
      (m.evaluateForced d e' env') := by
  refine (tandem_perform hlib d (.evaluate he henv)).bind fun σ a a' _ ha => ?_
  rw [← ha.ok]
  split
  · exact tandem_force hlib d ha.value
  · exact .pure ha

/-- Evaluations by interpreters, which catch those that go too deep. -/
theorem tandem_interpret (he : Renamed ρ e e') (henv : ρ.object (.env env) (.env env')) :
    Tandem ρ (Likeness.renaming fixed).Answers (m.interpret d e env) (m.interpret d e' env') := by
  intro s s' hm
  have hend := tandem_evaluateForced hlib d he henv s s' hm
  unfold Machine.interpret
  generalize m.evaluateForced d e env s = r, m.evaluateForced d e' env' s' = r' at hend
  cases hend with
  | @ok σ a a' t t' hon ha =>
    dsimp only
    rw [← ha.ok]
    split
    · exact .ok hon ha
    · refine .after hon (Tandem.bind (Tandem.render d (he.mono hon.le)) ?_ t t' hon.coincide)
      exact fun τ _ _ hle _ => (Tandem.note m _ _ _ _).bind fun υ _ _ hle' _ =>
        .pure (ha.mono (hle.trans hle'))
  | @error σ stop stop' t t' hon hs =>
    cases hs with
    | tooDeep =>
      refine .after hon (Tandem.bind (Tandem.render d (he.mono hon.le)) ?_ t t' hon.coincide)
      exact fun τ _ _ _ _ => (Tandem.note m _ _ _ _).bind fun υ _ _ _ _ =>
        .pure ⟨rfl, .nil⟩
    | raised message hf => exact .error hon (.raised message hf)
    | unfinished => exact .error hon .unfinished

theorem tandem_runExpression (he : Renamed ρ e e') (henv : ρ.object (.env env) (.env env')) :
    Tandem ρ Renamed (m.runExpression d e env) (m.runExpression d e' env') := by
  refine (tandem_interpret hlib d he henv).bind fun σ a a' hle ha => ?_
  rw [← ha.ok]
  split
  · exact .pure ha.value
  · exact Tandem.raise d (.evaluationFailed (he.mono hle))

/-- **A step does the same in stores that coincide.** -/
theorem tandem_step {step : Step} (hstep : step.recipe.Nominal fixed) {i i' : Interpreter}
    (hroot : ρ.object (.env i.env) (.env i'.env)) {past past' : List Reply}
    (hpast : List.Forall₂ (Reply.Renamed ρ) past past') :
    Tandem ρ Reply.Renamed (step.body i past m d) (step.body i' past' m d) := by
  have hmade := tandem_script hlib d (hstep ρ past past' i.env i'.env hpast hroot)
  cases step with
  | define name value =>
    refine hmade.bind fun σ v v' hle hv => ?_
    have hbind : Tandem σ (fun _ _ _ => True) (EvalM.change (·.bind i.env name v))
        (EvalM.change (·.bind i'.env name v')) := by
      refine Tandem.of_ok fun s s' hm => ?_
      obtain ⟨τ, hon⟩ := hm.bind (hle.object hroot) name hv
      exact ⟨_, _, _, _, τ, rfl, rfl, hon, trivial⟩
    exact hbind.bind fun τ _ _ _ _ => .pure .defined
  | evaluate expression =>
    refine hmade.bind fun σ e e' hle he => ?_
    exact (tandem_interpret hlib d he (hle.object hroot)).bind fun τ a a' _ ha =>
      .pure (.answered ha)
  | run expression =>
    refine hmade.bind fun σ e e' hle he => ?_
    exact (tandem_runExpression hlib d he (hle.object hroot)).bind fun τ v v' _ hv =>
      .pure (.returned hv)

/-- The step, its reply and the store after it. A stop counts as a reply. -/
theorem Step.take_further {step : Step} (hstep : step.recipe.Nominal fixed) {i i' : Interpreter}
    {h h' : Host} (hmachine : h.machine = m) (hmachine' : h'.machine = m)
    (hlimit : h.recursionLimit = h'.recursionLimit) (hm : Coincide ρ h.store h'.store)
    (hroot : ρ.object (.env i.env) (.env i'.env)) {past past' : List Reply}
    (hpast : List.Forall₂ (Reply.Renamed ρ) past past') :
    ∃ σ, Further ρ h'.store σ (step.take i past h).2.store (step.take i' past' h').2.store ∧
      (step.take i past h).1.Renamed σ (step.take i' past' h').1 := by
  have hend := tandem_step hlib h'.recursionLimit hstep hroot hpast h.store h'.store hm
  simp only [Step.take_eq, hmachine, hmachine', hlimit]
  generalize step.body i past m h'.recursionLimit h.store = x,
    step.body i' past' m h'.recursionLimit h'.store = x' at hend
  cases hend with
  | ok hon hr => exact ⟨_, hon, hr⟩
  | error hon hs => exact ⟨_, hon, .stopped hs⟩

end Interpret

/-! ## Two interpreters -/

/-- No two objects, one of each renaming, have the same name in the second store. -/
def Renaming.Apart (ρ σ : Renaming fixed) : Prop :=
  ∀ ⦃o p o'⦄, ρ.object o o' → ¬ σ.object p o'

theorem Renaming.Apart.symm (h : ρ.Apart σ) : σ.Apart ρ := fun _ _ _ hσ hρ => h hρ hσ

section Further
variable {τ : Renaming fixed} {s' t t' u : Store}

/-- Runs leave alone what their renaming does not lead to. -/
theorem Further.beside (hon : Further σ s' τ t t') (hm : Coincide ρ u s') (h : ρ.Apart σ) :
    Coincide ρ u t' :=
  hm.congr (fun o _ _ => .refl u o)
    (fun _ o' ho => hon.keep o' (hm.object ho).right fun _ hσ => h ho hσ) (fun _ hb => hb)
    hon.grown (Nat.le_refl _) hon.marks

/-- What a run makes is new, so it is not in another renaming. -/
theorem Further.apart (hon : Further σ s' τ t t') (hm : Coincide ρ u s') (h : ρ.Apart σ) :
    ρ.Apart τ := by
  intro o p o' ho hp
  rcases hon.new p o' hp with hσ | hb
  · exact h ho hσ
  · exact (hm.object ho).right hb

end Further

/-- One interpreter has come as far as another on another host, up to the naming of references. -/
structure Counterpart (i i' : Interpreter) (ρ : Renaming fixed) (x x' : List Reply × Host) :
    Prop where
  machine : x.2.machine = x'.2.machine
  limit : x.2.recursionLimit = x'.2.recursionLimit
  coincide : Coincide ρ x.2.store x'.2.store
  root : ρ.object (.env i.env) (.env i'.env)
  replies : List.Forall₂ (Reply.Renamed ρ) x.1 x'.1

namespace Counterpart
variable {i i' : Interpreter} {x x' : List Reply × Host}

/-- Both take a step. -/
theorem follow (h : Counterpart i i' ρ x x') (hlib : x'.2.machine.library.Nominal fixed)
    {step : Step} (hstep : step.recipe.Nominal fixed) :
    ∃ σ, Further ρ x'.2.store σ (step.follow i x).2.store (step.follow i' x').2.store ∧
      Counterpart i i' σ (step.follow i x) (step.follow i' x') := by
  obtain ⟨σ, hon, hreply⟩ :=
    Step.take_further hlib hstep h.machine rfl h.limit h.coincide h.root h.replies
  obtain ⟨t, ht⟩ := step.follow_host i x
  obtain ⟨t', ht'⟩ := step.follow_host i' x'
  have hpast : List.Forall₂ (Reply.Renamed σ) x.1 x'.1 := h.replies.imp fun _ _ hr => hr.mono hon.le
  refine ⟨σ, hon, ?_, ?_, hon.coincide, hon.le.object h.root,
    List.rel_append hpast (.cons hreply .nil)⟩
  · rw [ht, ht']
    exact h.machine
  · rw [ht, ht']
    exact h.limit

/-- The second one waits, while something else happens on its host. -/
theorem wait (h : Counterpart i i' ρ x x') {σ τ : Renaming fixed} {t t' : Store}
    (hon : Further σ x'.2.store τ t t') (hapart : ρ.Apart σ) :
    Counterpart i i' ρ x (x'.1, { x'.2 with store := t' }) :=
  ⟨h.machine, h.limit, hon.beside h.coincide hapart, h.root, h.replies⟩

end Counterpart

/-- Two interpreters have come as far on a host that they share as their counterparts, each on
a host of its own. The renamings lead to different objects of the common host. -/
structure Shared (lone who : Side → Interpreter) (ρ : Side → Renaming fixed)
    (alone : Side → List Reply × Host) (common : (Side → List Reply) × Host) : Prop where
  library : common.2.machine.library.Nominal fixed
  counterpart : ∀ side,
    Counterpart (lone side) (who side) (ρ side) (alone side) (common.1 side, common.2)
  apart : ∀ side other, side ≠ other → (ρ side).Apart (ρ other)

namespace Shared
variable {lone who : Side → Interpreter} {ρ : Side → Renaming fixed}
  {alone : Side → List Reply × Host} {common : (Side → List Reply) × Host}

/-- **A turn of one side is the step of its counterpart, and the other side sees none of it.** -/
theorem turn (h : Shared lone who ρ alone common) (side : Side) {step : Step}
    (hstep : step.recipe.Nominal fixed) :
    ∃ σ, Shared lone who (Function.update ρ side σ)
      (Function.update alone side (step.follow (lone side) (alone side)))
      (takeTurn who common (side, step)) := by
  obtain ⟨σ, hon, hown⟩ := (h.counterpart side).follow h.library hstep
  obtain ⟨t', ht'⟩ := step.follow_host (who side) (common.1 side, common.2)
  have hhost : (takeTurn who common (side, step)).2 = { common.2 with store := t' } := ht'
  have hstore : (step.follow (who side) (common.1 side, common.2)).2.store = t' :=
    congrArg Host.store ht'
  refine ⟨σ, ?_, fun other => ?_, fun other third hne => ?_⟩
  · rw [hhost]
    exact h.library
  · by_cases ho : other = side
    · obtain rfl := ho
      simp only [takeTurn, Function.update_self]
      exact hown
    · rw [hhost]
      simp only [takeTurn, Function.update_of_ne ho]
      exact (h.counterpart other).wait (hstore ▸ hon) (h.apart other side ho)
  · by_cases ho : other = side
    · obtain rfl := ho
      rw [Function.update_self, Function.update_of_ne hne.symm]
      exact (hon.apart (h.counterpart third).coincide (h.apart third other hne.symm)).symm
    · by_cases ht : third = side
      · obtain rfl := ht
        rw [Function.update_self, Function.update_of_ne ho]
        exact hon.apart (h.counterpart other).coincide (h.apart other third ho)
      · rw [Function.update_of_ne ho, Function.update_of_ne ht]
        exact h.apart other third hne

/-- Any number of turns. -/
theorem turns (h : Shared lone who ρ alone common) (turns : List (Side × Step))
    (hsteps : ∀ turn ∈ turns, turn.2.recipe.Nominal fixed) :
    ∃ σ : Side → Renaming fixed,
      Shared lone who σ (fun side => converse (lone side) (side.steps turns) (alone side))
        (interleave who turns common) := by
  induction turns generalizing ρ alone common with
  | nil => exact ⟨ρ, h⟩
  | cons turn turns ih =>
    obtain ⟨side, step⟩ := turn
    obtain ⟨σ, hturn⟩ := h.turn side (hsteps (side, step) (List.mem_cons_self ..))
    obtain ⟨τ, hrest⟩ := ih hturn fun turn ht => hsteps turn (List.mem_cons_of_mem _ ht)
    have hsame : ∀ other,
        converse (lone other) (other.steps ((side, step) :: turns)) (alone other) =
        converse (lone other) (other.steps turns)
          (Function.update alone side (step.follow (lone side) (alone side)) other) := by
      intro other
      by_cases ho : side = other
      · obtain rfl := ho
        simp [Side.steps, converse]
      · simp [Side.steps, ho, Function.update_of_ne (Ne.symm ho)]
    simp only [hsame]
    exact ⟨τ, hrest⟩

end Shared

/-! ## The beginning -/

/-- The first thing for the first side, the second for the second. -/
def Side.pick {α : Type} (side : Side) (first second : α) : α :=
  match side with
  | .first => first
  | .second => second

/-- Two interpreters with different objects begin on a common host. -/
theorem Shared.pair {lone who : Side → Interpreter} {alone : Side → List Reply × Host} {h : Host}
    (hlib : h.machine.library.Nominal fixed)
    (hfirst : Counterpart (lone .first) (who .first) ρ (alone .first) ([], h))
    (hsecond : Counterpart (lone .second) (who .second) σ (alone .second) ([], h))
    (hapart : ρ.Apart σ) :
    Shared lone who (fun side => side.pick ρ σ) alone (fun _ => [], h) where
  library := hlib
  counterpart side := by
    cases side with
    | first => exact hfirst
    | second => exact hsecond
  apart side other hne := by
    cases side with
    | first =>
      cases other with
      | first => exact absurd rfl hne
      | second => exact hapart
    | second =>
      cases other with
      | first => exact hapart.symm
      | second => exact absurd rfl hne

section Beginning
variable {r : RegistryId} {h₀ h₁ h₂ : Host} {i j : Interpreter}

/-- Both begin as they do while the other one does nothing. -/
theorem Shared.beginIdle (hi : Founded r h₀ i h₁) (hj : Founded r h₁ j h₂)
    (hmarks₀ : h₀.Registered) (hmarks₁ : h₁.Registered)
    (hlib : h₂.machine.library.Nominal (h₁.registry r).Marks) :
    ∃ ρ : Side → Renaming (h₁.registry r).Marks,
      Shared (fun side => side.pick i j) (fun side => side.pick i j) ρ (fun _ => ([], h₂))
        (fun _ => [], h₂) := by
  obtain ⟨ρ, hon, hroot⟩ := hi.start hi hi.marks_eq.symm rfl hmarks₀ hmarks₀
  obtain ⟨σ, hon', hroot'⟩ := hj.start hj rfl rfl hmarks₁ hmarks₁
  -- what the first one has made is not touched when the second one is made
  have hkept : Coincide ρ h₂.store h₂.store :=
    hon.coincide.congr (fun o _ ho => hon'.keep o (hon.coincide.object ho).left fun _ h => h)
      (fun _ o' ho => hon'.keep o' (hon.coincide.object ho).right fun _ h => h)
      hon'.grown hon'.grown hon'.marks hon'.marks
  exact ⟨_, .pair hlib ⟨rfl, rfl, hkept, hroot, .nil⟩ ⟨rfl, rfl, hon'.coincide, hroot', .nil⟩
    (hon'.apart hon.coincide fun _ _ _ _ h => h)⟩

/-- Both begin as the first one does while there is no other. -/
theorem Shared.beginSingle (hi : Founded r h₀ i h₁) (hj : Founded r h₁ j h₂)
    (hmarks₀ : h₀.Registered) (hmarks₁ : h₁.Registered)
    (hlib : h₂.machine.library.Nominal (h₁.registry r).Marks) :
    ∃ ρ : Side → Renaming (h₁.registry r).Marks,
      Shared (fun _ => i) (fun side => side.pick i j) ρ (fun _ => ([], h₁)) (fun _ => [], h₂) := by
  have hmachine := hj.rules.machine.symm
  have hlimit := hj.rules.limit.symm
  obtain ⟨ρ, hon, hroot⟩ := hi.start hi hi.marks_eq.symm rfl hmarks₀ hmarks₀
  obtain ⟨σ, hon', hroot'⟩ := hi.start hj hi.marks_eq.symm hi.table hmarks₀ hmarks₁
  have hnone : ρ.Apart (.initial _) := fun _ _ _ _ h => h
  exact ⟨_, .pair hlib ⟨hmachine, hlimit, hon'.beside hon.coincide hnone, hroot, .nil⟩
    ⟨hmachine, hlimit, hon'.coincide, hroot', .nil⟩ (hon'.apart hon.coincide hnone)⟩

end Beginning

/-! ## Main result -/

/-- The same replies up to the naming of references, which lead to the same in both stores. -/
def SameReplies (fixed : Mark → Prop) (x x' : List Reply × Host) : Prop :=
  ∃ ρ : Renaming fixed, Coincide ρ x.2.store x'.2.store ∧ List.Forall₂ (Reply.Renamed ρ) x.1 x'.1

theorem Shared.sameReplies {lone who : Side → Interpreter} {ρ : Side → Renaming fixed}
    {alone : Side → List Reply × Host} {common : (Side → List Reply) × Host}
    (h : Shared lone who ρ alone common) (turns : List (Side × Step))
    (hsteps : ∀ turn ∈ turns, turn.2.recipe.Nominal fixed) (side : Side) :
    SameReplies fixed (converse (lone side) (side.steps turns) (alone side))
      ((interleave who turns common).1 side, (interleave who turns common).2) := by
  obtain ⟨σ, hend⟩ := h.turns turns hsteps
  exact ⟨σ side, (hend.counterpart side).coincide, (hend.counterpart side).replies⟩

/-- **Interpreters that share a registry do not interfere.** Two interpreters are made on one
registry, be it given or the shared one, and then take their steps in any order. Each hears
what it hears when it takes its steps and the other takes none, and what it hears when the
other one is never made. -/
theorem interleaving_invisible (o o' : Option RegistryId) (h h₁ h₂ : Host) (i j : Interpreter)
    (hi : Interpreter.new o h = .ok i h₁) (hj : Interpreter.new o' h₁ = .ok j h₂)
    (hr : j.registry = i.registry) (hin : i.registry.index < h₁.registries.size)
    (hmarks : h.Registered) (hlib : h.library.Nominal (h₁.registry i.registry).Marks)
    (turns : List (Side × Step))
    (hsteps : ∀ turn ∈ turns, turn.2.recipe.Nominal (h₁.registry i.registry).Marks) (side : Side) :
    let common := interleave (fun side => side.pick i j) turns (fun _ => [], h₂)
    SameReplies (h₁.registry i.registry).Marks
        (converse (side.pick i j) (side.steps turns) ([], h₂)) (common.1 side, common.2) ∧
      SameReplies (h₁.registry i.registry).Marks
        (converse i (side.steps turns) ([], h₁)) (common.1 side, common.2) := by
  obtain ⟨h₀, hfirst, hrules, hmarks₀⟩ := Interpreter.founded hi hmarks
  have hsecond := Interpreter.founded_again hi hj hr hin
  have hmarks₁ := Interpreter.registered hi hmarks
  have hlib₂ : h₂.machine.library.Nominal (h₁.registry i.registry).Marks := by
    have hall := hrules.trans (hfirst.rules.trans hsecond.rules)
    rw [hall.machine]
    exact Bootstrap.extend_nominal hlib
  obtain ⟨ρ, hidle⟩ := Shared.beginIdle hfirst hsecond hmarks₀ hmarks₁ hlib₂
  obtain ⟨σ, hsingle⟩ := Shared.beginSingle hfirst hsecond hmarks₀ hmarks₁ hlib₂
  exact ⟨hidle.sameReplies turns hsteps side, hsingle.sameReplies turns hsteps side⟩

/-! ## A sample -/

namespace Prelude

/-- A host with a registry in which there is a native that adds. -/
def commonHost : Host :=
  HostSession.after [.newRegistry, .register ⟨0⟩ "add" "add" false]
    { library := library, recursionLimit := 10000, links := 100 }

/-- The host after one more interpreter has been made on the registry. -/
def joined (h : Host) : Host := endHost (Interpreter.new (some ⟨0⟩) h)

/-- Two sums, with a name that each side defines for itself. -/
def sums : List (Side × Step) :=
  [(.first, .define "x" fun _ _ => pure (.integer 1)),
    (.second, .define "x" fun _ _ => pure (.integer 10)),
    (.first, .evaluate fun _ _ => Script.newList [.symbol "add", .symbol "x", .integer 1]),
    (.second, .run fun _ _ => Script.newList [.symbol "add", .symbol "x", .integer 1])]

theorem commonHost_registered : commonHost.Registered :=
  HostSession.registered _ (Host.registered_of_empty rfl)

/-- The sums refer to nothing but names and numbers. -/
theorem sums_nominal (fixed : Mark → Prop) : ∀ turn ∈ sums, turn.2.recipe.Nominal fixed := by
  have hnumber : ∀ n, Recipe.Nominal fixed fun _ _ => pure (.integer n) :=
    fun n _ _ _ _ _ _ _ => .pure (.integer n)
  have hsum : Recipe.Nominal fixed fun _ _ =>
      Script.newList [.symbol "add", .symbol "x", .integer 1] := by
    intro ρ _ _ _ _ _ _
    exact (Likeness.renaming_natural fixed).newList (w := ρ)
      (.cons (.symbol _) (.cons (.symbol _) (.cons (.integer _) .nil)))
  simp only [sums, List.forall_mem_cons]
  exact ⟨hnumber 1, hnumber 10, hsum, hsum, nofun⟩

end Prelude

/-- The number in a reply, if it is one. -/
def Reply.number? : Reply → Option Int
  | .answered ⟨.integer n, true⟩ => some n
  | .returned (.integer n) => some n
  | _ => none

/-- Each side adds to its own number, in the one host as alone. -/
theorem sums_apart :
    (Interpreter.new (some ⟨0⟩) Prelude.commonHost =
          .ok ⟨⟨0⟩, ⟨0⟩⟩ (Prelude.joined Prelude.commonHost) ∧
        Interpreter.new (some ⟨0⟩) (Prelude.joined Prelude.commonHost) =
          .ok ⟨⟨0⟩, ⟨1⟩⟩ (Prelude.joined (Prelude.joined Prelude.commonHost)) ∧
        0 < (Prelude.joined Prelude.commonHost).registries.size ∧ Prelude.commonHost.Registered ∧
        Prelude.commonHost.library.Nominal
          ((Prelude.joined Prelude.commonHost).registry ⟨0⟩).Marks ∧
        ∀ turn ∈ Prelude.sums,
          turn.2.recipe.Nominal ((Prelude.joined Prelude.commonHost).registry ⟨0⟩).Marks) ∧
      ∀ side : Side,
        let common := interleave (fun side => side.pick ⟨⟨0⟩, ⟨0⟩⟩ ⟨⟨0⟩, ⟨1⟩⟩) Prelude.sums
          (fun _ => [], Prelude.joined (Prelude.joined Prelude.commonHost))
        (common.1 side).map Reply.number? = [none, some (side.pick 2 11)] ∧
          SameReplies ((Prelude.joined Prelude.commonHost).registry ⟨0⟩).Marks
            (converse ⟨⟨0⟩, ⟨0⟩⟩ (side.steps Prelude.sums) ([], Prelude.joined Prelude.commonHost))
            (common.1 side, common.2) := by
  have hfirst : Interpreter.new (some ⟨0⟩) Prelude.commonHost =
      .ok ⟨⟨0⟩, ⟨0⟩⟩ (Prelude.joined Prelude.commonHost) := rfl
  have hsecond : Interpreter.new (some ⟨0⟩) (Prelude.joined Prelude.commonHost) =
      .ok ⟨⟨0⟩, ⟨1⟩⟩ (Prelude.joined (Prelude.joined Prelude.commonHost)) := rfl
  have hin : 0 < (Prelude.joined Prelude.commonHost).registries.size := by decide +kernel
  have hlib := Prelude.library_nominal ((Prelude.joined Prelude.commonHost).registry ⟨0⟩).Marks
  have hsteps := Prelude.sums_nominal ((Prelude.joined Prelude.commonHost).registry ⟨0⟩).Marks
  have hsame := interleaving_invisible _ _ _ _ _ _ _ hfirst hsecond rfl hin
    Prelude.commonHost_registered hlib Prelude.sums hsteps
  refine ⟨⟨hfirst, hsecond, hin, Prelude.commonHost_registered, hlib, hsteps⟩,
    fun side => ⟨?_, ?_⟩⟩
  · cases side <;> decide +kernel
  · exact (hsame side).2

end LispCore
