import LispCore.Prelude
import LispCore.Proofs.SideBySide

/-! # How natives conduct themselves

A rule of conduct says what a native may ask for, what replies it can count on and
which faults it may raise. A script obeys it if every request it makes is one it may
make, as long as the replies so far were ones it can count on (`Script.Obeys`), and
scripts that obey are put together from parts that obey.

Where things that are alike are the same on both sides, obeying is all that an
evaluation asks of a native (`Likeness.Diagonal.scripts`). -/
namespace LispCore

/-- A rule of conduct for natives. -/
structure Conduct where
  asks : Request → Prop
  hears : (r : Request) → r.Reply → Prop
  raises : Fault → Prop

namespace Script
variable {α β : Type} {C : Conduct}

/-- The script keeps to a rule of conduct and ends in results for which `E` holds. -/
def Obeys (C : Conduct) (E : α → Prop) : Script α → Prop
  | .done a => E a
  | .raise fault => C.raises fault
  | .ask r next => C.asks r ∧ ∀ reply, C.hears r reply → (next reply).Obeys C E

namespace Obeys

theorem pure {E : α → Prop} {a : α} (h : E a) : (pure a : Script α).Obeys C E := h

theorem bind {E : α → Prop} {E' : β → Prop} {x : Script α} {f : α → Script β}
    (hx : x.Obeys C E) (hf : ∀ a, E a → (f a).Obeys C E') :
    (x >>= f).Obeys C E' := by
  induction x with
  | done a => exact hf a hx
  | raise fault => exact hx
  | ask r next ih => exact ⟨hx.1, fun reply hr => ih reply (hx.2 reply hr)⟩

theorem request {r : Request} {E : r.Reply → Prop} (ha : C.asks r)
    (he : ∀ reply, C.hears r reply → E reply) : (Script.request r).Obeys C E :=
  ⟨ha, he⟩

theorem ofExcept {E : α → Prop} {x : Except Fault α} (hok : ∀ a, x = .ok a → E a)
    (hraise : ∀ fault, x = .error fault → C.raises fault) :
    (Script.ofExcept x).Obeys C E := by
  cases x with
  | ok a => exact hok a rfl
  | error fault => exact hraise fault rfl

/-- Natives of the prelude first look at their list of arguments. -/
theorem arguments {E : List Value → Prop} {params : Value} (hok : E params.elements)
    (hraise : C.raises (.improperList params.ending)) :
    (Prelude.arguments params).Obeys C E := by
  unfold Prelude.arguments Value.listElements Value.properElements
  split
  · exact hok
  · exact hraise

end Obeys

end Script

/-! ## Likenesses of things with themselves -/

/-- A request made of values, of environments to look into and of places to evaluate in
that all fit. -/
def Request.MadeOf (value : Value → Prop) (looks place : EnvId → Prop) : Request → Prop
  | .evaluate e env | .newPromise e env => value e ∧ place env
  | .force v | .emit v | .render v => value v
  | .applyClosure c params => value c.toValue ∧ value params
  | .applyNative p params env => value (.native p) ∧ value params ∧ place env
  | .chain env | .lookup env _ | .newChild env => looks env
  | .bind env _ v => looks env ∧ value v
  | .read id _ => value (.mapping id)
  | .write id _ v => value (.mapping id) ∧ value v
  | .newMapping | .newMark | .effects => True

/-- A reply made of things that fit. -/
def Request.RepliedWith (value : Value → Prop) (looks place : EnvId → Prop) :
    (r : Request) → r.Reply → Prop
  | .evaluate .., a | .force _, a | .applyClosure .., a | .applyNative .., a => value a.value
  | .chain _, envs => ∀ env ∈ envs, looks env
  | .lookup .., found | .read .., found => ∀ v, found = some v → value v
  | .newChild _, env => place env
  | .newMapping, id => value (.mapping id)
  | .newPromise .., id => value (.promise id)
  | _, _ => True

theorem optionRel_diagonal {α : Type} {R : α → α → Prop} (heq : ∀ a b, R a b → b = a)
    {x y : Option α} (h : Option.Rel R x y) : y = x ∧ ∀ a, x = some a → R a a := by
  cases h with
  | none => exact ⟨rfl, nofun⟩
  | @some a b hab =>
    obtain rfl := heq a b hab
    refine ⟨rfl, fun c hc => ?_⟩
    cases hc
    exact hab

theorem forall₂_diagonal {α : Type} {R : α → α → Prop} (heq : ∀ a b, R a b → b = a)
    {l l' : List α} (h : List.Forall₂ R l l') : l' = l ∧ ∀ a ∈ l, R a a := by
  induction h with
  | nil => exact ⟨rfl, nofun⟩
  | @cons a b l l' hab _ ih =>
    obtain rfl := heq a b hab
    obtain ⟨rfl, hall⟩ := ih
    exact ⟨rfl, List.forall_mem_cons.mpr ⟨hab, hall⟩⟩

namespace Likeness
variable {K : Likeness} {C : Conduct}

/-- Things that are alike are the same, and a native that keeps to the rule of conduct asks
only for things that are alike to themselves, as long as it has only heard of such. -/
structure Diagonal (K : Likeness) (C : Conduct) : Prop where
  like_eq {w : K.World} (v v' : Value) : K.like w v v' → v' = v
  env_eq {w : K.World} (env env' : EnvId) : K.env w env env' → env' = env
  mark_eq {w : K.World} {mark mark' : Mark} : K.mark w mark mark' → mark' = mark
  verbatim : K.verbatim
  permits {r : Request} : C.asks r → K.permits r
  asks (w : K.World) {r : Request} : C.asks r →
    r.MadeOf (fun v => K.like w v v) (fun env => K.env w env env) fun env => K.place w env env
  hears {w : K.World} {r : Request} {reply : r.Reply} : C.asks r →
    r.RepliedWith (fun v => K.like w v v) (fun env => K.env w env env)
      (fun env => K.place w env env) reply → C.hears r reply

namespace Diagonal

theorem answers (h : K.Diagonal C) {w : K.World} {a a' : Answer} (ha : K.Answers w a a') :
    a' = a ∧ K.like w a.value a.value := by
  obtain ⟨v, ok⟩ := a
  obtain ⟨v', ok'⟩ := a'
  obtain ⟨rfl, hv⟩ := ha
  obtain rfl := h.like_eq v v' hv
  exact ⟨rfl, hv⟩

/-- **What may be asked for is alike to itself**, and so are the replies to it. -/
theorem asked (h : K.Diagonal C) (w : K.World) (r : Request) (ha : C.asks r) :
    ∃ Q, K.Asked w r r Q ∧ ∀ w' reply reply', Q w' reply reply' → reply' = reply ∧
      r.RepliedWith (fun v => K.like w' v v) (fun env => K.env w' env env)
        (fun env => K.place w' env env) reply := by
  have hmade := h.asks w ha
  cases r with
  | evaluate => exact ⟨_, .evaluate hmade.1 hmade.2, fun _ _ _ hr => h.answers hr⟩
  | force => exact ⟨_, .force hmade, fun _ _ _ hr => h.answers hr⟩
  | applyClosure =>
    exact ⟨_, .applyClosure hmade.1 hmade.2, fun _ _ _ hr => h.answers hr⟩
  | applyNative =>
    exact ⟨_, .applyNative hmade.1 hmade.2.1 hmade.2.2, fun _ _ _ hr => h.answers hr⟩
  | chain => exact ⟨_, .store (.chain hmade), fun _ _ _ hr => forall₂_diagonal h.env_eq hr⟩
  | lookup =>
    exact ⟨_, .store (.lookup _ hmade), fun _ _ _ hr => optionRel_diagonal h.like_eq hr⟩
  | bind => exact ⟨_, .store (.bind _ hmade.1 hmade.2), fun _ _ _ _ => ⟨rfl, trivial⟩⟩
  | newChild =>
    refine ⟨_, .store (.newChild hmade), fun _ env env' hr => ?_⟩
    obtain rfl := h.env_eq env env' (K.env_of_place hr)
    exact ⟨rfl, hr⟩
  | newMapping =>
    refine ⟨_, .store .newMapping, fun _ id id' hr => ?_⟩
    cases h.like_eq _ _ hr
    exact ⟨rfl, hr⟩
  | read =>
    exact ⟨_, .store (.read _ hmade), fun _ _ _ hr => optionRel_diagonal h.like_eq hr⟩
  | write => exact ⟨_, .store (.write _ hmade.1 hmade.2), fun _ _ _ _ => ⟨rfl, trivial⟩⟩
  | newPromise =>
    refine ⟨_, .store (.newPromise hmade.1 hmade.2), fun _ id id' hr => ?_⟩
    cases h.like_eq _ _ hr
    exact ⟨rfl, hr⟩
  | newMark => exact ⟨_, .store .newMark, fun _ _ _ hr => ⟨h.mark_eq hr, trivial⟩⟩
  | emit => exact ⟨_, .store (.emit hmade), fun _ _ _ _ => ⟨rfl, trivial⟩⟩
  | effects =>
    refine ⟨_, .store .effects, fun _ _ _ hr => ⟨?_, trivial⟩⟩
    exact Array.toList_inj.mp (forall₂_diagonal h.like_eq hr).1
  | render =>
    exact ⟨_, .store (.render hmade), fun _ _ _ hr => ⟨(hr h.verbatim).symm, trivial⟩⟩

/-- **Scripts that obey are alike to themselves.** -/
theorem scripts (h : K.Diagonal C) {α : Type} {E : α → Prop} {P : K.World → α → α → Prop}
    (hraise : ∀ w fault, C.raises fault → K.fault w fault fault)
    (hdone : ∀ w a, E a → P w a a) {w : K.World} {x : Script α} (hx : x.Obeys C E) :
    K.Scripts P w x x := by
  induction x generalizing w with
  | done a => exact .done (hdone w a hx)
  | raise fault => exact .raise (hraise w fault hx)
  | ask r next ih =>
    obtain ⟨Q, hQ, hreply⟩ := h.asked w r hx.1
    refine .ask (h.permits hx.1) hQ fun w' reply reply' _ hr => ?_
    obtain ⟨rfl, hmade⟩ := hreply w' reply reply' hr
    exact ih _ (hx.2 _ (h.hears hx.1 hmade))

end Diagonal

end Likeness

end LispCore
