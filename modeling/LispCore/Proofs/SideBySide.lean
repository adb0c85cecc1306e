import LispCore.Proofs.Facade
import Mathlib.Data.List.Forall2

/-! # Two evaluations side by side

What two evaluations have in common when they start from values that are alike.
What alike means is left open: a `Likeness` relates values and environments of the
two sides, in worlds that grow as the evaluations go on. The second side is a family
of runs, on several machines and with several depths, so that it can be asked for
its outcome under all large limits.

`SideBySide` collects what is asked of a relation between computations, with a
condition on what they return: returning, sequencing and the store actions of
evaluation. The law is that one call then relates what its nested calls relate
(`SideBySide.stepBy`). Natives take part by their scripts, which have to ask for
things that are alike and to go on alike from replies that are alike (`Scripts`).
What forcing a promise does is left to each use. -/
namespace LispCore

/-- The outermost layer of two values that are alike: they are of the same kind, and
what evaluation sees of their parts is alike. -/
inductive Shape (like : Value → Value → Prop) : Value → Value → Prop
  | nil : Shape like .nil .nil
  | integer (n n' : Int) : Shape like (.integer n) (.integer n')
  | float (x x' : Flonum) : Shape like (.float x) (.float x')
  | string (text text' : String) : Shape like (.string text) (.string text')
  | symbol (name : String) : Shape like (.symbol name) (.symbol name)
  | pair (mark mark' : Mark) {first first' rest rest' : Value} :
      like first first' → like rest rest' →
      Shape like (.pair mark first rest) (.pair mark' first' rest')
  | mapping (id id' : MappingId) : Shape like (.mapping id) (.mapping id')
  | array (mark mark' : Mark) (items items' : List Value) :
      Shape like (.array mark items) (.array mark' items')
  | closure (mark mark' : Mark) (params params' : List String) {body body' : Value}
      (env env' : EnvId) (isLazy : Bool) : like body body' →
      Shape like (.closure mark params body env isLazy) (.closure mark' params' body' env' isLazy)
  | native {p p' : Native} : p.isLazy = p'.isLazy → Shape like (.native p) (.native p')
  | promise (id id' : PromiseId) : Shape like (.promise id) (.promise id')

theorem Shape.refl {R : Value → Value → Prop} (hR : ∀ v, R v v) (v : Value) : Shape R v v := by
  cases v with
  | pair mark first rest => exact .pair mark mark (hR first) (hR rest)
  | closure mark params body env isLazy =>
    exact .closure mark mark params params env env isLazy (hR body)
  | native p => exact .native rfl
  | _ => constructor

/-! ## Bindings and parameters -/

/-- The same names in the same order, bound to related values. -/
def Bindings.Rel (R : Value → Value → Prop) (b b' : Bindings Value) : Prop :=
  List.Forall₂ (fun e e' => e.1 = e'.1 ∧ R e.2 e'.2) b.entries b'.entries

namespace Bindings.Rel
variable {R S T : Value → Value → Prop} {b b' b'' : Bindings Value}

theorem empty : Bindings.Rel R ∅ ∅ := .nil

theorem mono (h : ∀ v v', R v v' → S v v') (hb : b.Rel R b') : b.Rel S b' :=
  List.Forall₂.imp (fun _ _ he => ⟨he.1, h _ _ he.2⟩) hb

theorem flip (h : ∀ v v', R v v' → S v' v) (hb : b.Rel R b') : b'.Rel S b :=
  List.Forall₂.flip (List.Forall₂.imp (fun _ _ he => ⟨he.1.symm, h _ _ he.2⟩) hb)

theorem comp (h : ∀ v v' v'', R v v' → S v' v'' → T v v'') (hb : b.Rel R b')
    (hb' : b'.Rel S b'') : b.Rel T b'' := by
  unfold Bindings.Rel at hb hb' ⊢
  generalize b.entries = l, b'.entries = l', b''.entries = l'' at hb hb' ⊢
  induction hb generalizing l'' with
  | nil => cases hb'; exact .nil
  | cons he _ ih =>
    cases hb' with
    | cons he' hrest => exact .cons ⟨he.1.trans he'.1, h _ _ _ he.2 he'.2⟩ (ih _ hrest)

theorem insert (hb : b.Rel R b') (name : String) {v v' : Value} (hv : R v v') :
    (b.insert name v).Rel R (b'.insert name v') := by
  unfold Bindings.Rel Bindings.insert at *
  generalize b.entries = l, b'.entries = l' at hb ⊢
  induction hb with
  | nil => exact .cons ⟨rfl, hv⟩ .nil
  | @cons e e' l l' he hl ih =>
    obtain ⟨key, old⟩ := e
    obtain ⟨key', old'⟩ := e'
    obtain ⟨rfl, hold⟩ := he
    simp only [insertIn]
    split
    · exact .cons ⟨rfl, hv⟩ hl
    · exact .cons ⟨rfl, hold⟩ ih

theorem find? (hb : b.Rel R b') (name : String) :
    Option.Rel R (b.find? name) (b'.find? name) := by
  unfold Bindings.Rel Bindings.find? at *
  generalize b.entries = l, b'.entries = l' at hb ⊢
  induction hb with
  | nil => exact .none
  | @cons e e' l l' he hl ih =>
    obtain ⟨key, old⟩ := e
    obtain ⟨key', old'⟩ := e'
    obtain ⟨rfl, hold⟩ := he
    simp only [findIn]
    split
    · exact .some hold
    · exact ih

end Bindings.Rel

theorem Shape.isNil_eq {R : Value → Value → Prop} {v v' : Value} (h : Shape R v v') :
    v.isNil = v'.isNil := by
  cases h <;> rfl

/-- Parameters that are alike meet the names of a closure alike. -/
theorem matchParams_rel {R : Value → Value → Prop} (hshape : ∀ v v', R v v' → Shape R v v')
    (hnil : R .nil .nil) (names : List String) {params params' : Value}
    {frame frame' : Bindings Value} (hp : R params params') (hf : frame.Rel R frame') :
    (matchParams names params frame).frame.Rel R (matchParams names params' frame').frame ∧
      (matchParams names params frame).missing = (matchParams names params' frame').missing ∧
      R (matchParams names params frame).remaining
        (matchParams names params' frame').remaining := by
  induction names generalizing params params' frame frame' with
  | nil => exact ⟨hf, rfl, hp⟩
  | cons name names ih =>
    have hmissing := ih hp (hf.insert name hnil)
    cases hshape _ _ hp with
    | pair _ _ hv hr => exact ih hr (hf.insert name hv)
    | _ => exact ⟨hmissing.1, congrArg (· + 1) hmissing.2.1, hmissing.2.2⟩

theorem optionRel_of_eq {α : Type} {v v' : Option α} (h : v' = v) : Option.Rel Eq v v' := by
  cases h
  cases v with
  | some v => exact .some rfl
  | none => exact .none

theorem optionRel_mono {α β : Type} {R S : α → β → Prop} (h : ∀ a b, R a b → S a b)
    {x : Option α} {y : Option β} (hxy : Option.Rel R x y) : Option.Rel S x y := by
  cases hxy with
  | none => exact .none
  | some hab => exact .some (h _ _ hab)

/-- When things of two evaluations are alike. -/
structure Likeness where
  /-- How far the two evaluations have come. -/
  World : Type
  le : World → World → Prop
  like : World → Value → Value → Prop
  env : World → EnvId → EnvId → Prop
  /-- Environments that expressions may be evaluated in. -/
  place : World → EnvId → EnvId → Prop
  mark : World → Mark → Mark → Prop
  fault : World → Fault → Fault → Prop
  /-- What natives may ask for. -/
  permits : Request → Prop
  /-- Whether both sides write the same texts. -/
  verbatim : Prop
  shape {w : World} {v v' : Value} : like w v v' → Shape (like w) v v'
  nil (w : World) : like w .nil .nil
  like_mono {w w' : World} {v v' : Value} : le w w' → like w v v' → like w' v v'
  place_mono {w w' : World} {e e' : EnvId} : le w w' → place w e e' → place w' e e'
  env_of_place {w : World} {e e' : EnvId} : place w e e' → env w e e'

namespace Likeness
variable (K : Likeness)

/-- Answers that are alike. -/
structure Answers (w : K.World) (a a' : Answer) : Prop where
  ok : a.ok = a'.ok
  value : K.like w a.value a'.value

/-- Calls that are alike. -/
inductive Calls (w : K.World) : Call → Call → Prop
  | evaluate {e e' : Value} {env env' : EnvId} : K.like w e e' → K.place w env env' →
      Calls w (.evaluate e env) (.evaluate e' env')
  | arguments {args args' : Value} {env env' : EnvId} : K.like w args args' →
      K.place w env env' → Calls w (.arguments args env) (.arguments args' env')
  | deferred {args args' : Value} {env env' : EnvId} : K.like w args args' →
      K.place w env env' → Calls w (.deferred args env) (.deferred args' env')
  | force {id id' : PromiseId} : K.like w (.promise id) (.promise id') →
      Calls w (.force id) (.force id')
  | closure {c c' : Closure} {params params' : Value} : K.like w c.toValue c'.toValue →
      K.like w params params' → Calls w (.closure c params) (.closure c' params')
  | native {p p' : Native} {params params' : Value} {env env' : EnvId} :
      K.like w (.native p) (.native p') → K.like w params params' → K.place w env env' →
      Calls w (.native p params env) (.native p' params' env')

/-- Requests to the store that are alike, and when replies to them are. -/
inductive StoreAsked (w : K.World) :
    (r r' : Request) → (K.World → r.Reply → r'.Reply → Prop) → Prop
  | chain {env env' : EnvId} : K.env w env env' →
      StoreAsked w (.chain env) (.chain env') fun w l l' => List.Forall₂ (K.env w) l l'
  | lookup {env env' : EnvId} (name : String) : K.env w env env' →
      StoreAsked w (.lookup env name) (.lookup env' name) fun w v v' => Option.Rel (K.like w) v v'
  | bind {env env' : EnvId} (name : String) {v v' : Value} : K.env w env env' → K.like w v v' →
      StoreAsked w (.bind env name v) (.bind env' name v') fun _ _ _ => True
  | newChild {env env' : EnvId} : K.env w env env' →
      StoreAsked w (.newChild env) (.newChild env') fun w e e' => K.place w e e'
  | newMapping :
      StoreAsked w .newMapping .newMapping fun w id id' => K.like w (.mapping id) (.mapping id')
  | read {id id' : MappingId} (name : String) : K.like w (.mapping id) (.mapping id') →
      StoreAsked w (.read id name) (.read id' name) fun w v v' => Option.Rel (K.like w) v v'
  | write {id id' : MappingId} (name : String) {v v' : Value} :
      K.like w (.mapping id) (.mapping id') → K.like w v v' →
      StoreAsked w (.write id name v) (.write id' name v') fun _ _ _ => True
  | newPromise {e e' : Value} {env env' : EnvId} : K.like w e e' → K.place w env env' →
      StoreAsked w (.newPromise e env) (.newPromise e' env') fun w id id' =>
        K.like w (.promise id) (.promise id')
  | newMark : StoreAsked w .newMark .newMark fun w mark mark' => K.mark w mark mark'
  | emit {v v' : Value} : K.like w v v' →
      StoreAsked w (.emit v) (.emit v') fun _ _ _ => True
  | effects : StoreAsked w .effects .effects fun w l l' =>
      List.Forall₂ (K.like w) l.toList l'.toList
  | render {v v' : Value} : K.like w v v' →
      StoreAsked w (.render v) (.render v') fun _ text text' => K.verbatim → text = text'

/-- Requests that are alike, and when replies to them are. -/
inductive Asked (w : K.World) : (r r' : Request) → (K.World → r.Reply → r'.Reply → Prop) → Prop
  | evaluate {e e' : Value} {env env' : EnvId} : K.like w e e' → K.place w env env' →
      Asked w (.evaluate e env) (.evaluate e' env') K.Answers
  | force {v v' : Value} : K.like w v v' → Asked w (.force v) (.force v') K.Answers
  | applyClosure {c c' : Closure} {params params' : Value} : K.like w c.toValue c'.toValue →
      K.like w params params' →
      Asked w (.applyClosure c params) (.applyClosure c' params') K.Answers
  | applyNative {p p' : Native} {params params' : Value} {env env' : EnvId} :
      K.like w (.native p) (.native p') → K.like w params params' → K.place w env env' →
      Asked w (.applyNative p params env) (.applyNative p' params' env') K.Answers
  | store {r r' : Request} {Q : K.World → r.Reply → r'.Reply → Prop} :
      K.StoreAsked w r r' Q → Asked w r r' Q

/-- Scripts that ask for the same things, go on alike from replies that are alike,
and end with results that are alike. -/
inductive Scripts {α β : Type} (P : K.World → α → β → Prop) :
    K.World → Script α → Script β → Prop
  | done {w : K.World} {a : α} {b : β} : P w a b → Scripts P w (.done a) (.done b)
  | raise {w : K.World} {fault fault' : Fault} : K.fault w fault fault' →
      Scripts P w (.raise fault) (.raise fault')
  | ask {w : K.World} {r r' : Request} {Q : K.World → r.Reply → r'.Reply → Prop}
      {next : r.Reply → Script α} {next' : r'.Reply → Script β} :
      K.permits r → K.Asked w r r' Q →
      (∀ w' reply reply', K.le w w' → Q w' reply reply' →
        Scripts P w' (next reply) (next' reply')) →
      Scripts P w (.ask r next) (.ask r' next')

variable {K}

theorem Calls.parameters {w : K.World} (isLazy : Bool) {args args' : Value} {env env' : EnvId}
    (ha : K.like w args args') (he : K.place w env env') :
    K.Calls w (.parameters isLazy args env) (.parameters isLazy args' env') := by
  cases isLazy with
  | true => exact .deferred ha he
  | false => exact .arguments ha he

theorem Answers.mono {w w' : K.World} (h : K.le w w') {a a' : Answer} (ha : K.Answers w a a') :
    K.Answers w' a a' :=
  ⟨ha.ok, K.like_mono h ha.value⟩

theorem Answers.success {w : K.World} {v v' : Value} (h : K.like w v v') :
    K.Answers w (.success v) (.success v') :=
  ⟨rfl, h⟩

theorem Answers.failure (w : K.World) : K.Answers w .failure .failure := ⟨rfl, K.nil w⟩

end Likeness

namespace Machine

/-- What one call does if promises give their answers by `promised`. -/
def stepBy (m : Machine) (promised : PromiseId → EvalM Answer) (depth : Nat)
    (self : Call → EvalM Answer) : Call → EvalM Answer
  | .force id => promised id
  | c => m.step depth self c

theorem step_eq_stepBy (m : Machine) (depth : Nat) (self : Call → EvalM Answer) (c : Call) :
    m.step depth self c = m.stepBy (forceOnceWith self) depth self c := by
  cases c <;> rfl

end Machine

/-- What the law asks of a relation between the computations of one side and the
families of computations of the other: `R w P x y` is to say that `x` and `y`, begun
in the world `w`, return results for which `P` holds. The texts that both sides note
stand in the relation `T`. -/
structure SideBySide (K : Likeness) {ι : Type} (m : Machine) (m' : ι → Machine) (d : Nat)
    (δ : ι → Nat)
    (R : ∀ {α β : Type}, K.World → (K.World → α → β → Prop) → EvalM α → (ι → EvalM β) → Prop)
    (T : String → String → Prop := fun text text' => K.verbatim → text = text') : Prop where
  text_refl (text : String) : T text text := by
    intro _ _
    rfl
  text_append {text text' more more' : String} :
      T text text' → T more more' → T (text ++ more) (text' ++ more') := by
    intro _ _ _ _ h h' hk
    rw [h hk, h' hk]
  protected pure {α β : Type} {w : K.World} {P : K.World → α → β → Prop} {a : α} {b : β} :
    P w a b → R w P (pure a) fun _ => pure b
  protected bind {α β α' β' : Type} {w : K.World} {P : K.World → α → β → Prop}
      {P' : K.World → α' → β' → Prop} {x : EvalM α} {y : ι → EvalM β} {f : α → EvalM α'}
      {g : ι → β → EvalM β'} :
    R w P x y → (∀ w' a b, K.le w w' → P w' a b → R w' P' (f a) fun i => g i b) →
    R w P' (x >>= f) fun i => y i >>= g i
  render {w : K.World} {v v' : Value} : K.like w v v' →
    R w (fun _ text text' => T text text') (EvalM.render d v) fun i => EvalM.render (δ i) v'
  note {w : K.World} (source : Source) (severity : Severity) {text text' : String} :
    T text text' →
    R w (fun _ _ _ => True) (m.note source severity text) fun i => (m' i).note source severity text'
  lookup {w : K.World} {env env' : EnvId} (name : String) : K.env w env env' →
    R w (fun w v v' => Option.Rel (K.like w) v v') (EvalM.read (·.lookup env name))
      fun _ => EvalM.read (·.lookup env' name)
  newPair {w : K.World} {v v' r r' : Value} : K.like w v v' → K.like w r r' →
    R w K.like (EvalM.act (·.newPair v r)) fun _ => EvalM.act (·.newPair v' r')
  newPromise {w : K.World} {e e' : Value} {env env' : EnvId} : K.like w e e' →
    K.place w env env' →
    R w (fun w id id' => K.like w (.promise id) (.promise id'))
      (EvalM.act (·.newPromise e env)) fun _ => EvalM.act (·.newPromise e' env')
  enter {w : K.World} {c c' : Closure} {params params' : Value} :
    K.like w c.toValue c'.toValue → K.like w params params' →
    R w (fun w r r' => K.place w r.1 r'.1 ∧ r.2 = r'.2) (m.enter c params)
      fun i => (m' i).enter c' params'
  report {w : K.World} {p p' : Native} {a a' : Answer} : K.like w (.native p) (.native p') →
    K.Answers w a a' →
    R w (fun _ _ _ => True) (m.reportFailure p a) fun i => (m' i).reportFailure p' a'
  raise {α β : Type} {w : K.World} {P : K.World → α → β → Prop} {fault fault' : Fault} :
    K.fault w fault fault' →
    R w P (EvalM.raise d fault) fun i => EvalM.raise (δ i) fault'
  request {w : K.World} {r r' : Request} {Q : K.World → r.Reply → r'.Reply → Prop}
      {self : Call → EvalM Answer} {self' : ι → Call → EvalM Answer} :
    K.permits r → K.StoreAsked w r r' Q →
    R w Q (m.serveWith d self r) fun i => (m' i).serveWith (δ i) (self' i) r'
  library (i : ι) : (m' i).library = m.library
  conduct {w : K.World} {p p' : Native} {params params' : Value} {env env' : EnvId} :
    K.like w (.native p) (.native p') → K.like w params params' → K.place w env env' →
    K.Scripts K.Answers w (m.library p.routine params env) (m.library p'.routine params' env')

namespace SideBySide
variable {K : Likeness} {ι : Type} {m : Machine} {m' : ι → Machine} {d : Nat} {δ : ι → Nat}
variable {R : ∀ {α β : Type}, K.World → (K.World → α → β → Prop) → EvalM α → (ι → EvalM β) → Prop}
variable {T : String → String → Prop}
variable {self : Call → EvalM Answer} {self' : ι → Call → EvalM Answer} {w : K.World}

/-! ## Preparing arguments -/

theorem failure (h : SideBySide K m m' d δ R T) :
    R w K.Answers (pure .failure) fun _ => pure .failure :=
  h.pure (.failure w)

/-- A note, and then a failure. -/
theorem noted (h : SideBySide K m m' d δ R T) (source : Source) (severity : Severity)
    {text text' : String} (ht : T text text') :
    R w K.Answers (m.note source severity text >>= fun _ => pure .failure)
      fun i => (m' i).note source severity text' >>= fun _ => pure .failure :=
  h.bind (h.note source severity ht) fun _ _ _ _ _ => h.failure

theorem improperArguments (h : SideBySide K m m' d δ R T) {tail tail' : Value}
    (ht : K.like w tail tail') :
    R w K.Answers (m.improperArguments d tail) fun i => (m' i).improperArguments (δ i) tail' := by
  refine h.bind (h.render ht) fun w' text text' _ hv => ?_
  exact h.noted _ _ (h.text_append (h.text_refl _) hv)

theorem argumentsWith (h : SideBySide K m m' d δ R T)
    (hs : ∀ w c c', K.Calls w c c' → R w K.Answers (self c) fun i => self' i c')
    {args args' : Value} {env env' : EnvId} (ha : K.like w args args') (he : K.place w env env') :
    R w K.Answers (m.argumentsWith d self args env)
      fun i => (m' i).argumentsWith (δ i) (self' i) args' env' := by
  unfold Machine.argumentsWith
  cases K.shape ha with
  | nil => exact h.pure (.success (K.nil w))
  | pair _ _ hfirst hrest =>
    refine h.bind (hs w _ _ (.evaluate hfirst he)) fun w₁ head head' hle hhead => ?_
    rw [← hhead.ok]
    split
    · refine h.bind (hs w₁ _ _ (.arguments (K.like_mono hle hrest) (K.place_mono hle he)))
        fun w₂ tail tail' hle' htail => ?_
      rw [← htail.ok]
      split
      · have hv := K.like_mono hle' hhead.value
        exact h.bind (h.newPair hv htail.value) fun w₃ _ _ _ hp => h.pure (.success hp)
      · exact h.failure
    · exact h.failure
  | _ => exact h.improperArguments ha

theorem deferredWith (h : SideBySide K m m' d δ R T)
    (hs : ∀ w c c', K.Calls w c c' → R w K.Answers (self c) fun i => self' i c')
    {args args' : Value} {env env' : EnvId} (ha : K.like w args args') (he : K.place w env env') :
    R w K.Answers (m.deferredWith d self args env)
      fun i => (m' i).deferredWith (δ i) (self' i) args' env' := by
  unfold Machine.deferredWith
  cases K.shape ha with
  | nil => exact h.pure (.success (K.nil w))
  | pair _ _ hfirst hrest =>
    refine h.bind (hs w _ _ (.deferred hrest he)) fun w₁ tail tail' hle htail => ?_
    rw [← htail.ok]
    split
    · have hpromise := h.newPromise (K.like_mono hle hfirst) (K.place_mono hle he)
      refine h.bind hpromise fun w₂ id id' hle' hid => ?_
      have hv := K.like_mono hle' htail.value
      exact h.bind (h.newPair hid hv) fun w₃ _ _ _ hp => h.pure (.success hp)
    · exact h.failure
  | _ => exact h.improperArguments ha

/-! ## Evaluating expressions -/

/-- What is not a procedure is not applied. -/
theorem notProcedure (h : SideBySide K m m' d δ R T) {e e' v v' : Value} (he : K.like w e e')
    (hv : K.like w v v') :
    R w K.Answers
      (do
        let shown ← EvalM.render d v
        let whole ← EvalM.render d e
        m.note .evaluator .debug ("Not a procedure: " ++ shown ++ " in " ++ whole)
        pure .failure)
      (fun i => do
        let shown ← EvalM.render (δ i) v'
        let whole ← EvalM.render (δ i) e'
        (m' i).note .evaluator .debug ("Not a procedure: " ++ shown ++ " in " ++ whole)
        pure .failure) := by
  refine h.bind (h.render hv) fun w₁ shown shown' hle hshown => ?_
  refine h.bind (h.render (K.like_mono hle he)) fun w₂ whole whole' _ hwhole => ?_
  have hcallee := h.text_append (h.text_refl "Not a procedure: ") hshown
  have hplace := h.text_append hcallee (h.text_refl " in ")
  exact h.noted _ _ (h.text_append hplace hwhole)

theorem applyWith (h : SideBySide K m m' d δ R T)
    (hs : ∀ w c c', K.Calls w c c' → R w K.Answers (self c) fun i => self' i c')
    {e e' callee callee' args args' : Value} {env env' : EnvId} (he : K.like w e e')
    (hc : K.like w callee callee') (ha : K.like w args args') (hp : K.place w env env') :
    R w K.Answers (m.applyWith d self e callee args env)
      fun i => (m' i).applyWith (δ i) (self' i) e' callee' args' env' := by
  unfold Machine.applyWith
  cases K.shape hc with
  | @native p p' hlazy =>
    dsimp only
    rw [← hlazy]
    cases p.isLazy with
    | true => exact hs w _ _ (.native hc ha hp)
    | false =>
      refine h.bind (hs w _ _ (.arguments ha hp)) fun w₁ params params' hle hparams => ?_
      rw [← hparams.ok]
      split
      · exact hs w₁ _ _ (.native (K.like_mono hle hc) hparams.value (K.place_mono hle hp))
      · exact h.failure
  | closure mark mark' names names' env env' isLazy hbody =>
    refine h.bind (hs w _ _ (.parameters isLazy ha hp)) fun w₁ params params' hle hparams => ?_
    rw [← hparams.ok]
    split
    · exact hs w₁ _ _ (.closure (K.like_mono hle hc) hparams.value)
    · exact h.failure
  | _ => exact h.notProcedure he hc

theorem evaluateWith (h : SideBySide K m m' d δ R T)
    (hs : ∀ w c c', K.Calls w c c' → R w K.Answers (self c) fun i => self' i c')
    {e e' : Value} {env env' : EnvId} (he : K.like w e e') (hp : K.place w env env') :
    R w K.Answers (m.evaluateWith d self e env)
      fun i => (m' i).evaluateWith (δ i) (self' i) e' env' := by
  unfold Machine.evaluateWith
  cases K.shape he with
  | symbol name =>
    refine h.bind (h.lookup name (K.env_of_place hp)) fun w₁ found found' _ hfound => ?_
    cases hfound with
    | some hv => exact h.pure (.success hv)
    | none => exact h.noted _ _ (h.text_refl _)
  | pair mark mark' hhead hargs =>
    refine h.bind (hs w _ _ (.evaluate hhead hp)) fun w₁ callee callee' hle hcallee => ?_
    rw [← hcallee.ok]
    split
    · exact h.applyWith hs (K.like_mono hle he) hcallee.value (K.like_mono hle hargs)
        (K.place_mono hle hp)
    · refine h.bind (h.render (K.like_mono hle he)) fun w₂ whole whole' _ hwhole => ?_
      exact h.noted _ _ (h.text_append (h.text_refl _) hwhole)
  | promise id id' => exact hs w _ _ (.force he)
  | _ => exact h.pure (.success he)

/-! ## Closures and natives -/

theorem applyClosureWith (h : SideBySide K m m' d δ R T)
    (hs : ∀ w c c', K.Calls w c c' → R w K.Answers (self c) fun i => self' i c')
    {c c' : Closure} {params params' : Value} (hc : K.like w c.toValue c'.toValue)
    (hp : K.like w params params') :
    R w K.Answers (m.applyClosureWith self c params)
      fun i => (m' i).applyClosureWith (self' i) c' params' := by
  refine h.bind (h.enter hc hp) fun w₁ r r' hle hr => ?_
  dsimp only
  rw [← hr.2]
  split
  · have hbody : K.like w c.body c'.body := by
      cases c; cases c'
      cases K.shape hc with
      | closure _ _ _ _ _ _ _ hbody => exact hbody
    exact hs w₁ _ _ (.evaluate (K.like_mono hle hbody) hr.1)
  · exact h.failure

theorem serveWith (h : SideBySide K m m' d δ R T)
    (hs : ∀ w c c', K.Calls w c c' → R w K.Answers (self c) fun i => self' i c')
    (hf : ∀ w v v', K.like w v v' → R w K.Answers (Machine.forceWith self m.links v)
      fun i => Machine.forceWith (self' i) (m' i).links v')
    {r r' : Request} {Q : K.World → r.Reply → r'.Reply → Prop} (hr : K.permits r)
    (ha : K.Asked w r r' Q) :
    R w Q (m.serveWith d self r) fun i => (m' i).serveWith (δ i) (self' i) r' := by
  cases ha with
  | evaluate he hp => exact hs w _ _ (.evaluate he hp)
  | force hv => exact hf w _ _ hv
  | applyClosure hc hp => exact hs w _ _ (.closure hc hp)
  | applyNative hn hp he => exact hs w _ _ (.native hn hp he)
  | store ha => exact h.request hr ha

theorem runWith (h : SideBySide K m m' d δ R T)
    (hs : ∀ w c c', K.Calls w c c' → R w K.Answers (self c) fun i => self' i c')
    (hf : ∀ w v v', K.like w v v' → R w K.Answers (Machine.forceWith self m.links v)
      fun i => Machine.forceWith (self' i) (m' i).links v')
    {α β : Type} {P : K.World → α → β → Prop} {x : Script α} {x' : Script β}
    (hx : K.Scripts P w x x') :
    R w P (m.runWith d self x) fun i => (m' i).runWith (δ i) (self' i) x' := by
  induction hx with
  | done hp => exact h.pure hp
  | raise hfault => exact h.raise hfault
  | ask hr ha _ ih => exact h.bind (h.serveWith hs hf hr ha) ih

theorem applyNativeWith (h : SideBySide K m m' d δ R T)
    (hs : ∀ w c c', K.Calls w c c' → R w K.Answers (self c) fun i => self' i c')
    (hf : ∀ w v v', K.like w v v' → R w K.Answers (Machine.forceWith self m.links v)
      fun i => Machine.forceWith (self' i) (m' i).links v')
    {p p' : Native} {params params' : Value} {env env' : EnvId}
    (hn : K.like w (.native p) (.native p')) (hparams : K.like w params params')
    (he : K.place w env env') :
    R w K.Answers (m.applyNativeWith d self p params env)
      fun i => (m' i).applyNativeWith (δ i) (self' i) p' params' env' := by
  unfold Machine.applyNativeWith
  simp only [h.library]
  refine h.bind (h.runWith hs hf (h.conduct hn hparams he)) fun w₁ a a' hle ha => ?_
  refine h.bind (h.report (K.like_mono hle hn) ha) fun w₂ _ _ hle' _ => ?_
  exact h.pure (ha.mono hle')

/-- **One call relates what its nested calls relate.** How chains are followed and how a
promise gives its answer is left to `hf` and `hp`. -/
theorem stepBy {promised : PromiseId → EvalM Answer} {promised' : ι → PromiseId → EvalM Answer}
    (h : SideBySide K m m' d δ R T)
    (hs : ∀ w c c', K.Calls w c c' → R w K.Answers (self c) fun i => self' i c')
    (hf : ∀ w v v', K.like w v v' → R w K.Answers (Machine.forceWith self m.links v)
      fun i => Machine.forceWith (self' i) (m' i).links v')
    (hp : ∀ w id id', K.like w (.promise id) (.promise id') →
      R w K.Answers (promised id) fun i => promised' i id')
    {c c' : Call} (hc : K.Calls w c c') :
    R w K.Answers (m.stepBy promised d self c)
      fun i => (m' i).stepBy (promised' i) (δ i) (self' i) c' := by
  cases hc with
  | evaluate he hp => exact h.evaluateWith hs he hp
  | arguments ha hp => exact h.argumentsWith hs ha hp
  | deferred ha hp => exact h.deferredWith hs ha hp
  | force hid => exact hp w _ _ hid
  | closure hc hp => exact h.applyClosureWith hs hc hp
  | native hn hp he => exact h.applyNativeWith hs hf hn hp he

theorem step (h : SideBySide K m m' d δ R T)
    (hs : ∀ w c c', K.Calls w c c' → R w K.Answers (self c) fun i => self' i c')
    (hf : ∀ w v v', K.like w v v' → R w K.Answers (Machine.forceWith self m.links v)
      fun i => Machine.forceWith (self' i) (m' i).links v')
    (ho : ∀ w id id', K.like w (.promise id) (.promise id') →
      R w K.Answers (Machine.forceOnceWith self id)
        fun i => Machine.forceOnceWith (self' i) id')
    {c c' : Call} (hc : K.Calls w c c') :
    R w K.Answers (m.step d self c) fun i => (m' i).step (δ i) (self' i) c' := by
  simp only [Machine.step_eq_stepBy]
  exact h.stepBy hs hf ho hc

/-- Following a chain of promises with the same number of links. -/
theorem forceWith (h : SideBySide K m m' d δ R T)
    (hs : ∀ w c c', K.Calls w c c' → R w K.Answers (self c) fun i => self' i c')
    (hu : ∀ w, R w K.Answers (EvalM.stop .unfinished) fun _ => EvalM.stop .unfinished)
    (links : Nat) {v v' : Value} (hv : K.like w v v') :
    R w K.Answers (Machine.forceWith self links v)
      fun i => Machine.forceWith (self' i) links v' := by
  induction links generalizing w v v' with
  | zero =>
    cases K.shape hv with
    | promise => exact hu w
    | _ => exact h.pure (.success hv)
  | succ links ih =>
    cases K.shape hv with
    | promise id id' =>
      refine h.bind (hs w _ _ (.force hv)) fun w₁ a a' _ ha => ?_
      rw [← ha.ok]
      split
      · exact ih ha.value
      · exact h.pure ha
    | _ => exact h.pure (.success hv)

end SideBySide

/-! ## One promise

How the two sides force a promise depends on what is stored for it. -/

section Promise
variable {self : Call → EvalM Answer} {s : Store} {id : PromiseId}

theorem forceOnceWith_of_some {a : Answer} (h : (s.promise id).memo = some a) :
    Machine.forceOnceWith self id s = .ok a s := by
  have hr : (EvalM.read (·.promise id) : EvalM Promise) s = .ok (s.promise id) s := rfl
  unfold Machine.forceOnceWith
  refine (EvalM.bind_ok hr).trans ?_
  rw [h]
  rfl

theorem forceOnceWith_of_none (h : (s.promise id).memo = none) :
    Machine.forceOnceWith self id s =
      (self (.evaluate (s.promise id).expression (s.promise id).env) >>= fun a =>
        EvalM.change (·.memoise id a) >>= fun _ => pure a) s := by
  have hr : (EvalM.read (·.promise id) : EvalM Promise) s = .ok (s.promise id) s := rfl
  unfold Machine.forceOnceWith
  refine (EvalM.bind_ok hr).trans ?_
  rw [h]
  rfl

end Promise

end LispCore
