import LispCore.Prelude
import LispCore.Proofs.Pairing
import LispCore.Proofs.Renaming

/-! # The natives of the prelude do the same on what is alike

A likeness is natural if what is built alike from things that are alike is alike again, and
if things that are alike cannot be told apart by taking them to pieces (`Natural`). The
natives of the prelude do no more with their arguments than take to pieces, build and ask
the evaluator, so under every natural likeness they do the same on arguments that are alike
(`Routines`).

They are put together from a few parts, and so are the proofs: scripts that do the same in
sequence (`Scripts.bind`), requests, and what natives do with their list of arguments. Two
natives bind names, one renders, and three follow the links between environments; they are
alike if the likeness permits that (`primitives_all`). -/
namespace LispCore

/-- A plain request that does not follow the links between environments. -/
def Request.Unlinked : Request → Prop
  | .chain _ => False
  | r => r.Plain

namespace Likeness

/-- A native does the same on parameters that are alike. -/
def Routines (K : Likeness) (f : Routine) : Prop :=
  ∀ w params params' env env', K.like w params params' → K.place w env env' →
    K.Scripts K.Answers w (f params env) (f params' env')

/-- What is built alike is alike, and permitted are at least the requests that write nothing,
look at no state and follow no links. -/
structure Natural (K : Likeness) : Prop where
  refl (w : K.World) : K.le w w
  trans {w w' w'' : K.World} : K.le w w' → K.le w' w'' → K.le w w''
  place_of_env {w : K.World} {e e' : EnvId} : K.env w e e' → K.place w e e'
  integer (w : K.World) (n : Int) : K.like w (.integer n) (.integer n)
  integer_eq {w : K.World} {n n' : Int} : K.like w (.integer n) (.integer n') → n = n'
  string (w : K.World) (text : String) : K.like w (.string text) (.string text)
  pair {w : K.World} {i i' : Mark} {v v' r r' : Value} : K.mark w i i' → K.like w v v' →
    K.like w r r' → K.like w (.pair i v r) (.pair i' v' r')
  closure {w : K.World} {i i' : Mark} (params : List String) {body body' : Value}
    {env env' : EnvId} (isLazy : Bool) : K.mark w i i' → K.like w body body' →
    K.place w env env' →
    K.like w (.closure i params body env isLazy) (.closure i' params body' env' isLazy)
  improperList {w : K.World} {v v' : Value} : K.like w v v' →
    K.fault w (.improperList v) (.improperList v')
  notName {w : K.World} {v v' : Value} : K.like w v v' → K.fault w (.notName v) (.notName v')
  noParent (w : K.World) : K.fault w .noParent .noParent
  native (w : K.World) (text : String) : K.fault w (.native text) (.native text)
  unlinked {r : Request} : r.Unlinked → K.permits r

/-- Values that are alike one by one. -/
abbrev Lists (K : Likeness) (w : K.World) : List Value → List Value → Prop :=
  List.Forall₂ (K.like w)

/-- Both give results that are alike, or both raise faults that are. -/
inductive Excepts (K : Likeness) (w : K.World) {α β : Type} (R : α → β → Prop) :
    Except Fault α → Except Fault β → Prop
  | ok {a : α} {b : β} : R a b → Excepts K w R (.ok a) (.ok b)
  | error {fault fault' : Fault} : K.fault w fault fault' →
      Excepts K w R (.error fault) (.error fault')

end Likeness

variable {K : Likeness} {w : K.World}

/-! ## Lists -/

theorem forall₂_getLastD {α β : Type} {R : α → β → Prop} {l : List α} {l' : List β} {a : α} {b : β}
    (h : List.Forall₂ R l l') (hab : R a b) : R (l.getLastD a) (l'.getLastD b) := by
  induction h generalizing a b with
  | nil => exact hab
  | cons hcd _ ih =>
    simp only [List.getLastD_cons]
    exact ih hcd

namespace Likeness
variable {vs vs' : List Value} {v v' : Value}

theorem Lists.mono {w' : K.World} (h : K.le w w') (hvs : K.Lists w vs vs') : K.Lists w' vs vs' :=
  List.Forall₂.imp (fun _ _ hv => K.like_mono h hv) hvs

theorem elements_lists (h : K.like w v v') : K.Lists w v.elements v'.elements := by
  induction v using Value.elements.induct generalizing v' with
  | case1 mark first rest ih =>
    cases K.shape h with
    | pair _ _ hfirst hrest => exact .cons hfirst (ih hrest)
  | case2 v hv =>
    cases K.shape h with
    | pair => exact absurd rfl (hv _ _ _)
    | _ => exact .nil

theorem ending_like (h : K.like w v v') : K.like w v.ending v'.ending := by
  induction v using Value.ending.induct generalizing v' with
  | case1 mark first rest ih =>
    cases K.shape h with
    | pair _ _ _ hrest =>
      have hend := ih hrest
      exact hend
  | case2 v hv =>
    cases K.shape h with
    | pair => exact absurd rfl (hv _ _ _)
    | _ => exact h

namespace Natural
variable (hK : K.Natural)
include hK

theorem integers?_eq (hvs : K.Lists w vs vs') : Prelude.integers? vs = Prelude.integers? vs' := by
  induction hvs with
  | nil => rfl
  | cons hv _ ih =>
    cases K.shape hv with
    | integer n n' =>
      obtain rfl := hK.integer_eq hv
      simp only [Prelude.integers?, ih]
    | _ => rfl

theorem listElements (h : K.like w v v') :
    K.Excepts w (K.Lists w) v.listElements v'.listElements := by
  have hend := ending_like h
  unfold Value.listElements Value.properElements
  generalize v.ending = e, v'.ending = e' at hend ⊢
  cases K.shape hend with
  | nil => exact .ok (elements_lists h)
  | _ => exact .error (hK.improperList hend)

theorem listLength (h : K.like w v v') : K.Excepts w Eq v.listLength v'.listLength := by
  have hl := hK.listElements h
  unfold Value.listLength
  generalize v.listElements = x, v'.listElements = x' at hl ⊢
  cases hl with
  | ok hl => exact .ok hl.length_eq
  | error hf => exact .error hf

theorem paramNames (h : K.Lists w vs vs') :
    K.Excepts w Eq (Value.paramNames vs) (Value.paramNames vs') := by
  induction h with
  | nil => exact .ok rfl
  | @cons v v' vs vs' hv _ ih =>
    cases K.shape hv with
    | symbol name =>
      simp only [Value.paramNames]
      generalize Value.paramNames vs = x, Value.paramNames vs' = x' at ih ⊢
      cases ih with
      | ok heq => exact .ok (congrArg (name :: ·) heq)
      | error hf => exact .error hf
    | _ => exact .error (hK.notName hv)

end Natural

/-! ## Scripts -/

namespace Scripts
variable {α β : Type} {P : K.World → α → β → Prop}

protected theorem pure {a : α} {b : β} (h : P w a b) : K.Scripts P w (pure a) (pure b) := .done h

theorem request {r r' : Request} {Q : K.World → r.Reply → r'.Reply → Prop}
    (ha : K.Asked w r r' Q) (hr : K.permits r) :
    K.Scripts Q w (Script.request r) (Script.request r') :=
  .ask hr ha fun _ _ _ _ hq => .done hq

theorem ofExcept {R : K.World → α → β → Prop} {x : Except Fault α} {x' : Except Fault β}
    (h : K.Excepts w (R w) x x') :
    K.Scripts R w (Script.ofExcept x) (Script.ofExcept x') := by
  cases h with
  | ok h => exact .done h
  | error hf => exact .raise hf

end Scripts

namespace Natural
variable (hK : K.Natural)
include hK

theorem bind {α β α' β' : Type} {P : K.World → α → β → Prop} {P' : K.World → α' → β' → Prop}
    {x : Script α} {x' : Script β} {f : α → Script α'} {f' : β → Script β'}
    (hx : K.Scripts P w x x')
    (hf : ∀ w' a b, K.le w w' → P w' a b → K.Scripts P' w' (f a) (f' b)) :
    K.Scripts P' w (x >>= f) (x' >>= f') := by
  induction hx with
  | done h => exact hf _ _ _ (hK.refl _) h
  | raise h => exact .raise h
  | ask hr ha _ ih =>
    refine .ask hr ha fun w' reply reply' hle hq => ?_
    exact ih w' reply reply' hle hq fun w'' a b hle' => hf w'' a b (hK.trans hle hle')

theorem request {r r' : Request} {Q : K.World → r.Reply → r'.Reply → Prop}
    (ha : K.Asked w r r' Q) (hr : r.Unlinked) :
    K.Scripts Q w (Script.request r) (Script.request r') :=
  .request ha (hK.unlinked hr)

theorem value (hv : K.like w v v') : K.Scripts K.like w (Script.value v) (Script.value v') := by
  refine hK.bind (hK.request (.force hv) trivial) fun w' a a' _ ha => ?_
  rw [← ha.ok]
  split
  · exact .pure ha.value
  · exact .pure (K.nil w')

theorem newPair {r r' : Value} (hv : K.like w v v') (hr : K.like w r r') :
    K.Scripts K.like w (Script.newPair v r) (Script.newPair v' r') := by
  refine hK.bind (hK.request (.store .newMark) trivial) fun w' mark mark' hle hm => ?_
  exact .pure (hK.pair hm (K.like_mono hle hv) (K.like_mono hle hr))

theorem arguments (h : K.like w v v') :
    K.Scripts K.Lists w (Prelude.arguments v) (Prelude.arguments v') :=
  .ofExcept (hK.listElements h)

theorem values (h : K.Lists w vs vs') :
    K.Scripts K.Lists w (vs.mapM Script.value) (vs'.mapM Script.value) := by
  induction vs generalizing w vs' with
  | nil =>
    cases h
    exact .pure .nil
  | cons v vs ih =>
    cases h with
    | cons hv hvs =>
      simp only [List.mapM_cons]
      refine hK.bind (hK.value hv) fun w₁ v v' hle hv => ?_
      refine hK.bind (ih (Lists.mono hle hvs)) fun w₂ vs vs' hle' hvs => ?_
      exact .pure (.cons (K.like_mono hle' hv) hvs)

theorem newList (h : K.Lists w vs vs') :
    K.Scripts K.like w (Script.newList vs) (Script.newList vs') := by
  induction h with
  | nil => exact .pure (K.nil w)
  | cons hv _ ih => exact hK.bind ih fun w' r r' hle hr => hK.newPair (K.like_mono hle hv) hr

end Natural

end Likeness

/-! ## Natives -/

namespace Prelude
open Likeness (Scripts)

theorem succeed_scripts {v v' : Value} (h : K.like w v v') :
    K.Scripts K.Answers w (succeed v) (succeed v') :=
  .done (.success h)

theorem whole_routines : K.Routines whole :=
  fun _ _ _ _ _ hp _ => succeed_scripts hp

theorem bindAnswer_scripts (hbind : ∀ env name v, K.permits (.bind env name v)) (key : String)
    {env env' : EnvId} (he : K.env w env env') {a a' : Answer} (ha : K.Answers w a a') :
    K.Scripts K.Answers w (bindAnswer env key a) (bindAnswer env' key a') := by
  unfold bindAnswer
  rw [← ha.ok]
  split
  · exact .ask (hbind _ _ _) (.store (.bind key he ha.value))
      fun w' _ _ hle _ => .pure (ha.mono hle)
  · exact .pure ha

section
variable (hK : K.Natural)
include hK

theorem badArguments_scripts (name : String) :
    K.Scripts K.Answers w (badArguments name) (badArguments name) :=
  .done ⟨rfl, hK.string w _⟩

/-! ### Values and lists -/

theorem arithmetic_routines (name : String) (combine : List Int → Int) :
    K.Routines (arithmetic name combine) := by
  intro w params params' env env' hp _
  refine hK.bind (hK.arguments hp) fun w₁ args args' _ hargs => ?_
  refine hK.bind (hK.values hargs) fun w₂ vs vs' _ hvs => ?_
  rw [← hK.integers?_eq hvs]
  split
  · exact succeed_scripts (hK.integer _ _)
  · exact badArguments_scripts hK name

theorem less_routines : K.Routines less := by
  intro w params params' env env' hp _
  refine hK.bind (hK.arguments hp) fun w₁ args args' _ hargs => ?_
  rcases hargs with _ | ⟨ha, _ | ⟨hb, _ | _⟩⟩
  · exact badArguments_scripts hK _
  · exact badArguments_scripts hK _
  · refine hK.bind (hK.value ha) fun w₂ v v' hle hv => ?_
    refine hK.bind (hK.value (K.like_mono hle hb)) fun w₃ u u' _ hu => ?_
    cases K.shape hv with
    | integer m =>
      obtain rfl := hK.integer_eq hv
      cases K.shape hu with
      | integer n =>
        obtain rfl := hK.integer_eq hu
        exact succeed_scripts (hK.integer _ _)
      | _ => exact badArguments_scripts hK _
    | _ => exact badArguments_scripts hK _
  · exact badArguments_scripts hK _

theorem tick_routines : K.Routines tick := by
  intro w params params' env env' hp _
  refine hK.bind (hK.arguments hp) fun w₁ args args' _ hargs => ?_
  cases hargs with
  | nil => exact badArguments_scripts hK _
  | cons ha _ =>
    refine hK.bind (hK.value ha) fun w₂ v v' _ hv => ?_
    exact hK.bind (hK.request (.store (.emit hv)) trivial) fun w₃ _ _ hle _ =>
      succeed_scripts (K.like_mono hle hv)

theorem last_routines : K.Routines last := by
  intro w params params' env env' hp _
  exact hK.bind (hK.arguments hp) fun w₁ args args' _ hargs =>
    succeed_scripts (forall₂_getLastD hargs (K.nil w₁))

theorem pickFirst_routines : K.Routines pickFirst := by
  intro w params params' env env' hp _
  refine hK.bind (hK.arguments hp) fun w₁ args args' _ hargs => ?_
  cases hargs with
  | nil => exact badArguments_scripts hK _
  | cons ha _ => exact hK.bind (hK.value ha) fun w₂ v v' _ hv => succeed_scripts hv

theorem both_routines : K.Routines both := by
  intro w params params' env env' hp _
  refine hK.bind (hK.arguments hp) fun w₁ args args' _ hargs => ?_
  rcases hargs with _ | ⟨ha, _ | ⟨hb, _ | _⟩⟩
  · exact badArguments_scripts hK _
  · exact badArguments_scripts hK _
  · refine hK.bind (hK.value ha) fun w₂ v v' hle hv => ?_
    refine hK.bind (hK.value (K.like_mono hle hb)) fun w₃ u u' hle' hu => ?_
    exact hK.bind (hK.newList (.cons (K.like_mono hle' hv) (.cons hu .nil))) fun w₄ l l' _ hl =>
      succeed_scripts hl
  · exact badArguments_scripts hK _

theorem cons_routines : K.Routines cons := by
  intro w params params' env env' hp _
  refine hK.bind (hK.arguments hp) fun w₁ args args' _ hargs => ?_
  rcases hargs with _ | ⟨ha, _ | ⟨hb, _ | _⟩⟩
  · exact badArguments_scripts hK _
  · exact badArguments_scripts hK _
  · exact hK.bind (hK.newPair ha hb) fun w₂ p p' _ hp => succeed_scripts hp
  · exact badArguments_scripts hK _

theorem first_routines : K.Routines first := by
  intro w params params' env env' hp _
  refine hK.bind (hK.arguments hp) fun w₁ args args' _ hargs => ?_
  rcases hargs with _ | ⟨ha, _ | _⟩
  · exact badArguments_scripts hK _
  · refine hK.bind (hK.value ha) fun w₂ v v' _ hv => ?_
    cases K.shape hv with
    | pair _ _ hfirst _ => exact succeed_scripts hfirst
    | _ => exact badArguments_scripts hK _
  · exact badArguments_scripts hK _

theorem rest_routines : K.Routines rest := by
  intro w params params' env env' hp _
  refine hK.bind (hK.arguments hp) fun w₁ args args' _ hargs => ?_
  rcases hargs with _ | ⟨ha, _ | _⟩
  · exact badArguments_scripts hK _
  · refine hK.bind (hK.value ha) fun w₂ v v' _ hv => ?_
    cases K.shape hv with
    | pair _ _ _ hrest => exact succeed_scripts hrest
    | _ => exact badArguments_scripts hK _
  · exact badArguments_scripts hK _

theorem length_routines : K.Routines length := by
  intro w params params' env env' hp _
  refine hK.bind (hK.arguments hp) fun w₁ args args' _ hargs => ?_
  rcases hargs with _ | ⟨ha, _ | _⟩
  · exact badArguments_scripts hK _
  · refine hK.bind (hK.value ha) fun w₂ v v' _ hv => ?_
    refine hK.bind (Scripts.ofExcept (R := fun _ => Eq) (hK.listLength hv)) fun w₃ n n' _ hn => ?_
    rw [hn]
    exact succeed_scripts (hK.integer _ _)
  · exact badArguments_scripts hK _

theorem quote_routines : K.Routines quote := by
  intro w params params' env env' hp _
  refine hK.bind (hK.arguments hp) fun w₁ args args' _ hargs => ?_
  rcases hargs with _ | ⟨ha, _ | _⟩
  · exact badArguments_scripts hK _
  · exact succeed_scripts ha
  · exact badArguments_scripts hK _

/-! ### Failures -/

theorem fail_routines : K.Routines fail := by
  intro w params params' env env' hp _
  exact hK.bind (hK.arguments hp) fun _ _ _ _ _ => .pure ⟨rfl, hK.string _ _⟩

theorem failWith_routines : K.Routines failWith := by
  intro w params params' env env' hp _
  refine hK.bind (hK.arguments hp) fun w₁ args args' _ hargs => ?_
  rcases hargs with _ | ⟨ha, _ | _⟩
  · exact badArguments_scripts hK _
  · exact .pure ⟨rfl, ha⟩
  · exact badArguments_scripts hK _

theorem raise_routines : K.Routines raise := by
  intro w params params' env env' hp _
  exact hK.bind (hK.arguments hp) fun w₁ _ _ _ _ => .raise (hK.native w₁ _)

/-! ### Control -/

theorem force_routines : K.Routines force := by
  intro w params params' env env' hp _
  refine hK.bind (hK.arguments hp) fun w₁ args args' _ hargs => ?_
  rcases hargs with _ | ⟨ha, _ | _⟩
  · exact badArguments_scripts hK _
  · exact hK.request (.force ha) trivial
  · exact badArguments_scripts hK _

theorem apply_routines : K.Routines apply := by
  intro w params params' env env' hp he
  refine hK.bind (hK.arguments hp) fun w₁ args args' hle hargs => ?_
  rcases hargs with _ | ⟨ha, _ | ⟨hb, _ | _⟩⟩
  · exact badArguments_scripts hK _
  · exact badArguments_scripts hK _
  · refine hK.bind (hK.value ha) fun w₂ callee callee' hle₂ hc => ?_
    refine hK.bind (hK.value (K.like_mono hle₂ hb)) fun w₃ args args' hle₃ hargs => ?_
    have hc' := K.like_mono hle₃ hc
    have he' := K.place_mono (hK.trans hle (hK.trans hle₂ hle₃)) he
    cases K.shape hc with
    | closure i i' names names' home home' isLazy =>
      have hclosure : K.like w₃ (Closure.toValue ⟨i, names, _, home, isLazy⟩)
          (Closure.toValue ⟨i', names', _, home', isLazy⟩) := hc'
      exact hK.request (.applyClosure hclosure hargs) trivial
    | native => exact hK.request (.applyNative hc' hargs he') trivial
    | _ => exact badArguments_scripts hK _
  · exact badArguments_scripts hK _

theorem lambda_routines (name : String) (isLazy : Bool) : K.Routines (lambda name isLazy) := by
  intro w params params' env env' hp he
  refine hK.bind (hK.arguments hp) fun w₁ args args' hle hargs => ?_
  rcases hargs with _ | ⟨ha, _ | ⟨hb, _ | _⟩⟩
  · exact badArguments_scripts hK _
  · exact badArguments_scripts hK _
  · refine hK.bind (.ofExcept (hK.listElements ha)) fun w₂ elements elements' hle₂ hel => ?_
    refine hK.bind (Scripts.ofExcept (R := fun _ => Eq) (hK.paramNames hel))
      fun w₃ names names' hle₃ hnames => ?_
    refine hK.bind (hK.request (.store .newMark) trivial) fun w₄ mark mark' hle₄ hmark => ?_
    rw [hnames]
    have hlater := hK.trans hle₂ (hK.trans hle₃ hle₄)
    exact succeed_scripts (hK.closure _ isLazy hmark (K.like_mono hlater hb)
      (K.place_mono (hK.trans hle hlater) he))
  · exact badArguments_scripts hK _

theorem isFalse_eq {v v' : Value} (h : K.like w v v') : isFalse v = isFalse v' := by
  cases K.shape h with
  | integer n n' => rw [hK.integer_eq h]
  | _ => rfl

theorem choose_routines : K.Routines choose := by
  intro w params params' env env' hp he
  refine hK.bind (hK.arguments hp) fun w₁ args args' hle hargs => ?_
  have he₁ := K.place_mono hle he
  match args, args', hargs with
  | [test, yes, no], [test', yes', no'], .cons htest (.cons hyes (.cons hno .nil)) =>
    refine hK.bind (hK.request (.evaluate htest he₁) trivial) fun w₂ a a' hle₂ ha => ?_
    have he₂ := K.place_mono hle₂ he₁
    have hbranch : K.like w₂ (if isFalse a.value then no else yes)
        (if isFalse a.value then no' else yes') := by
      split
      · exact K.like_mono hle₂ hno
      · exact K.like_mono hle₂ hyes
    rw [← ha.ok, ← isFalse_eq hK ha.value]
    split
    · exact hK.request (.evaluate hbranch he₂) trivial
    · exact .pure (.failure w₂)
  | [], [], .nil => exact badArguments_scripts hK _
  | [_], [_], _ => exact badArguments_scripts hK _
  | [_, _], [_, _], _ => exact badArguments_scripts hK _
  | _ :: _ :: _ :: _ :: _, _ :: _ :: _ :: _ :: _, _ => exact badArguments_scripts hK _

theorem sequenceFrom_scripts {env env' : EnvId} {a a' : Answer} {es es' : List Value}
    (he : K.place w env env') (ha : K.Answers w a a') (hes : K.Lists w es es') :
    K.Scripts K.Answers w (sequenceFrom env a es) (sequenceFrom env' a' es') := by
  induction es generalizing w a a' es' with
  | nil =>
    cases hes
    exact .pure ha
  | cons e es ih =>
    cases hes with
    | cons hfirst hrest =>
      refine hK.bind (hK.request (.evaluate hfirst he) trivial) fun w₁ b b' hle hb => ?_
      rw [← hb.ok]
      split
      · exact ih (K.place_mono hle he) hb (Likeness.Lists.mono hle hrest)
      · exact .pure hb

theorem sequence_routines : K.Routines sequence := by
  intro w params params' env env' hp he
  exact hK.bind (hK.arguments hp) fun w₁ args args' hle hargs =>
    sequenceFrom_scripts hK (K.place_mono hle he) (.success (K.nil w₁)) hargs

theorem delay_routines : K.Routines delay := by
  intro w params params' env env' hp he
  refine hK.bind (hK.arguments hp) fun w₁ args args' hle hargs => ?_
  rcases hargs with _ | ⟨hexp, _ | _⟩
  · exact badArguments_scripts hK _
  · exact hK.bind (hK.request (.store (.newPromise hexp (K.place_mono hle he))) trivial)
      fun w₂ id id' _ hid => succeed_scripts hid
  · exact badArguments_scripts hK _

/-! ### Scopes -/

theorem depth_routines (hchain : ∀ env, K.permits (.chain env)) : K.Routines depth := by
  intro w params params' env env' hp he
  refine hK.bind (hK.arguments hp) fun w₁ args args' hle hargs => ?_
  have he₁ := K.env_of_place (K.place_mono hle he)
  refine hK.bind (.request (.store (.chain he₁)) (hchain env)) fun w₂ chain chain' _ hlinks => ?_
  rw [hlinks.length_eq]
  exact succeed_scripts (hK.integer _ _)

theorem bound_routines : K.Routines bound := by
  intro w params params' env env' hp he
  refine hK.bind (hK.arguments hp) fun w₁ args args' hle hargs => ?_
  rcases hargs with _ | ⟨ha, hrest⟩
  · exact badArguments_scripts hK _
  · cases K.shape ha with
    | symbol name =>
      cases hrest with
      | nil =>
        have he₁ := K.env_of_place (K.place_mono hle he)
        refine hK.bind (hK.request (.store (.lookup name he₁)) trivial)
          fun w₂ found found' _ hfound => ?_
        cases hfound with
        | some => exact succeed_scripts (hK.integer _ _)
        | none => exact succeed_scripts (hK.integer _ _)
      | cons => exact badArguments_scripts hK _
    | _ => cases hrest <;> exact badArguments_scripts hK _

theorem scope_routines : K.Routines scope := by
  intro w params params' env env' hp he
  refine hK.bind (hK.arguments hp) fun w₁ args args' hle hargs => ?_
  rcases hargs with _ | ⟨hexp, _ | _⟩
  · exact badArguments_scripts hK _
  · exact hK.bind (hK.request (.store (.newChild (K.env_of_place (K.place_mono hle he)))) trivial)
      fun w₂ inner inner' hle₂ hinner =>
        hK.request (.evaluate (K.like_mono hle₂ hexp) hinner) trivial
  · exact badArguments_scripts hK _

theorem up_routines (hchain : ∀ env, K.permits (.chain env)) : K.Routines up := by
  intro w params params' env env' hp he
  refine hK.bind (hK.arguments hp) fun w₁ args args' hle hargs => ?_
  rcases hargs with _ | ⟨hexp, _ | _⟩
  · exact badArguments_scripts hK _
  · have he₁ := K.env_of_place (K.place_mono hle he)
    refine hK.bind (.request (.store (.chain he₁)) (hchain env))
      fun w₂ chain chain' hle₂ hlinks => ?_
    match chain, chain', hlinks with
    | _ :: _ :: _, _ :: _ :: _, .cons _ (.cons hparent _) =>
      exact hK.request (.evaluate (K.like_mono hle₂ hexp) (hK.place_of_env hparent)) trivial
    | [], [], _ => exact .raise (hK.noParent w₂)
    | [_], [_], _ => exact .raise (hK.noParent w₂)
  · exact badArguments_scripts hK _

/-! ### Natives that define or render -/

theorem define_routines (hbind : ∀ env name v, K.permits (.bind env name v)) :
    K.Routines define := by
  intro w params params' env env' hp he
  refine hK.bind (hK.arguments hp) fun w₁ args args' hle hargs => ?_
  have he₁ := K.place_mono hle he
  rcases hargs with _ | ⟨ha, _ | ⟨hb, _ | _⟩⟩
  · exact badArguments_scripts hK _
  · cases K.shape ha <;> exact badArguments_scripts hK _
  · cases K.shape ha with
    | symbol key =>
      refine hK.bind (hK.request (.evaluate hb he₁) trivial) fun w₂ a a' hle₂ ha => ?_
      exact bindAnswer_scripts hbind key (K.env_of_place (K.place_mono hle₂ he₁)) ha
    | _ => exact badArguments_scripts hK _
  · cases K.shape ha <;> exact badArguments_scripts hK _

theorem defineRoot_routines (hbind : ∀ env name v, K.permits (.bind env name v))
    (hchain : ∀ env, K.permits (.chain env)) : K.Routines defineRoot := by
  intro w params params' env env' hp he
  refine hK.bind (hK.arguments hp) fun w₁ args args' hle hargs => ?_
  have he₁ := K.place_mono hle he
  rcases hargs with _ | ⟨ha, _ | ⟨hb, _ | _⟩⟩
  · exact badArguments_scripts hK _
  · cases K.shape ha <;> exact badArguments_scripts hK _
  · cases K.shape ha with
    | symbol key =>
      refine hK.bind (hK.request (.evaluate hb he₁) trivial) fun w₂ a a' hle₂ ha => ?_
      have he₂ := K.env_of_place (K.place_mono hle₂ he₁)
      refine hK.bind (.request (.store (.chain he₂)) (hchain env))
        fun w₃ chain chain' hle₃ hlinks => ?_
      refine bindAnswer_scripts hbind key ?_ (ha.mono hle₃)
      exact forall₂_getLastD hlinks (K.env_of_place (K.place_mono (hK.trans hle₂ hle₃) he₁))
    | _ => exact badArguments_scripts hK _
  · cases K.shape ha <;> exact badArguments_scripts hK _

theorem render_routines (hrender : ∀ v, K.permits (.render v)) (hverbatim : K.verbatim) :
    K.Routines render := by
  intro w params params' env env' hp _
  refine hK.bind (hK.arguments hp) fun w₁ args args' _ hargs => ?_
  rcases hargs with _ | ⟨ha, _ | _⟩
  · exact badArguments_scripts hK _
  · refine .ask (hrender _) (.store (.render ha)) fun w₂ text text' _ htext => ?_
    rw [htext hverbatim]
    exact succeed_scripts (hK.string w₂ _)
  · exact badArguments_scripts hK _

/-! ### The library -/

/-- What holds of all natives that are alike, and of the others, which define, render or follow
links, holds of all. -/
theorem primitives_all {Q : Primitive → Prop} (halike : ∀ p : Primitive, K.Routines p.routine → Q p)
    (hdefine : Q ⟨"define", true, define⟩) (hroot : Q ⟨"define-root", true, defineRoot⟩)
    (hrender : Q ⟨"render", false, render⟩) (hdepth : Q ⟨"depth", true, depth⟩)
    (hup : Q ⟨"up", true, up⟩) : ∀ p ∈ primitives, Q p := by
  simp only [primitives, List.forall_mem_cons]
  exact ⟨halike _ (arithmetic_routines hK _ _), halike _ (arithmetic_routines hK _ _),
    halike _ (less_routines hK), halike _ (tick_routines hK), halike _ (last_routines hK),
    halike _ whole_routines, halike _ whole_routines, halike _ (pickFirst_routines hK),
    halike _ (both_routines hK), halike _ (cons_routines hK), halike _ (first_routines hK),
    halike _ (rest_routines hK), halike _ (fail_routines hK), halike _ (failWith_routines hK),
    halike _ (raise_routines hK), halike _ (length_routines hK), hrender,
    halike _ (force_routines hK), halike _ (apply_routines hK), halike _ (lambda_routines hK _ _),
    halike _ (lambda_routines hK _ _), hdefine, hroot, halike _ (quote_routines hK),
    halike _ (choose_routines hK), halike _ (sequence_routines hK), halike _ (delay_routines hK),
    hdepth, halike _ (bound_routines hK), halike _ (scope_routines hK), hup, nofun⟩

end

/-- Every routine of the library is that of a native or fails. -/
theorem library_cases (key : String) :
    (∃ p ∈ primitives, p.name = key ∧ library key = p.routine) ∨
      library key = fun _ _ => pure .failure := by
  unfold library
  split
  · next p hp =>
    have hfound := List.find?_some hp
    have hname : p.name = key := eq_of_beq hfound
    exact .inl ⟨p, List.mem_of_find?_eq_some hp, hname, rfl⟩
  · exact .inr rfl

theorem failing_routines : K.Routines fun _ _ => pure .failure :=
  fun w _ _ _ _ _ _ => .pure (.failure w)

/-- **The natives of the prelude do the same on what is alike**, under every natural likeness
that lets them bind, render and follow links. -/
theorem library_routines (hK : K.Natural) (hbind : ∀ env name v, K.permits (.bind env name v))
    (hchain : ∀ env, K.permits (.chain env)) (hrender : ∀ v, K.permits (.render v))
    (hverbatim : K.verbatim) (key : String) : K.Routines (library key) := by
  have hall := primitives_all hK (Q := fun p => K.Routines p.routine) (fun _ hp => hp)
    (define_routines hK hbind) (defineRoot_routines hK hbind hchain)
    (render_routines hK hrender hverbatim) (depth_routines hK hchain) (up_routines hK hchain)
  rcases library_cases key with ⟨p, hp, -, heq⟩ | heq
  · rw [heq]
    exact hall p hp
  · rw [heq]
    exact failing_routines

/-- The natives of the prelude without those of the given names. -/
def without (names : List String) : Library := fun key =>
  if names.contains key then fun _ _ => pure .failure else library key

/-- Leaving natives out keeps what holds of the others. -/
theorem without_routines {names : List String}
    (hall : ∀ p ∈ primitives, names.contains p.name = true ∨ K.Routines p.routine) (key : String) :
    K.Routines (without names key) := by
  unfold without
  split
  · exact failing_routines
  · next hkey =>
    rcases library_cases key with ⟨p, hp, rfl, heq⟩ | heq
    · rw [heq]
      exact (hall p hp).resolve_left hkey
    · rw [heq]
      exact failing_routines

/-- The natives that define or render. -/
def loud : List String := ["define", "define-root", "render"]

/-- The natives of the prelude that neither define nor render. -/
def quiet : Library := without loud

/-- The others do so wherever they may follow links. -/
theorem quiet_routines (hK : K.Natural) (hchain : ∀ env, K.permits (.chain env)) (key : String) :
    K.Routines (quiet key) := by
  have hall := primitives_all hK
    (Q := fun p => loud.contains p.name = true ∨ K.Routines p.routine) (fun _ hp => .inr hp)
    (.inl rfl) (.inl rfl) (.inl rfl) (.inr (depth_routines hK hchain))
    (.inr (up_routines hK hchain))
  exact without_routines hall key

end Prelude

/-! ## Two natural likenesses -/

theorem Likeness.uniform_natural : Likeness.uniform.Natural where
  refl _ := .refl _
  trans := .trans
  place_of_env h := h
  integer _ := .integer
  integer_eq h := by cases h; rfl
  string _ := .string
  pair := .pair
  closure := .closure
  improperList _ := trivial
  notName _ := trivial
  noParent _ := trivial
  native _ _ := trivial
  unlinked {r} h := by
    cases r with
    | chain => exact h.elim
    | _ => exact h

theorem Likeness.renaming_natural (fixed : Mark → Prop) : (Likeness.renaming fixed).Natural where
  refl := Renaming.Le.refl
  trans := Renaming.Le.trans
  place_of_env h := h
  integer _ := .integer
  integer_eq h := by cases h; rfl
  string _ := .string
  pair hm hv hr := .pair hm hv hr
  closure params _ _ _ _ isLazy hm hbody he := .closure params isLazy hm hbody he
  improperList := .improperList
  notName := .notName
  noParent _ := .bare trivial
  native _ _ := .bare trivial
  unlinked h := by
    intro he
    rw [he] at h
    exact h

namespace Prelude

/-- **The prelude is uniform, apart from the natives that define or render.** -/
theorem quiet_uniform : Library.Uniform quiet :=
  quiet_routines Likeness.uniform_natural fun _ => trivial

/-- **The prelude is nominal**, whatever marks are fixed. -/
theorem library_nominal (fixed : Mark → Prop) : Library.Nominal fixed library :=
  library_routines (Likeness.renaming_natural fixed) (fun _ _ _ => nofun) (fun _ => nofun)
    (fun _ => nofun) trivial

end Prelude

end LispCore
