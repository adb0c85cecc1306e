import LispCore.Proofs.Conduct
import LispCore.Proofs.HostSession
import LispCore.Proofs.Memo
import LispCore.Proofs.Scope

/-! # Where evaluation writes

An evaluation changes no frame that was there at its start, except that of its own
environment and those of the environments that promises still to be forced were made
in, provided natives stay at home: they bind names, and have expressions evaluated or
put off, only in the environment they are called from and in those they make
(`Library.StaysHome`). A native that has an expression evaluated elsewhere, as one
that evaluates in the parent of its caller's environment does, is what the proviso is
about (`up_writes_parent`); environments that natives may name are therefore a
parameter of the result (`evaluate_footprint`).

The set of environments that count as home is fixed at the start: the named ones,
those of the promises, that of the evaluation, and all that are made later. The
invariant of runs is `Footprint`: frames outside that set are as they were, and the
promises that wait belong to it. -/
namespace LispCore

open Store (Touched)

namespace Store

/-! ## Frames belong to one environment each -/

/-- Every environment has its frame in the store and shares it with no other one. -/
structure FramesApart (s : Store) : Prop where
  inside : ∀ env e, s.environment? env = some e → e.frame.index < s.mappings.size
  apart : ∀ env env' e e', s.environment? env = some e → s.environment? env' = some e' →
    e.frame = e'.frame → env = env'

@[simp] theorem size_write (s : Store) (id : MappingId) (name : String) (v : Value) :
    (s.write id name v).mappings.size = s.mappings.size := by
  simp [write]

@[simp] theorem size_bind (s : Store) (env : EnvId) (name : String) (v : Value) :
    (s.bind env name v).mappings.size = s.mappings.size := by
  unfold bind
  split <;> simp

namespace FramesApart

theorem empty : FramesApart .empty where
  inside env e h := by simp [environment?, Store.empty] at h
  apart env env' e e' h := by simp [environment?, Store.empty] at h

variable {s t : Store}

theorem of_environments (h : FramesApart s) (he : t.environments = s.environments)
    (hm : s.mappings.size ≤ t.mappings.size) : FramesApart t := by
  have hsame : ∀ env, t.environment? env = s.environment? env := by
    intro env
    unfold environment?
    rw [he]
  refine ⟨fun env e h' => ?_, fun env env' e e' h₁ h₂ => ?_⟩
  · rw [hsame] at h'
    exact Nat.lt_of_lt_of_le (h.inside env e h') hm
  · rw [hsame] at h₁ h₂
    exact h.apart env env' e e' h₁ h₂

theorem newEnvironment (h : FramesApart s) (parent : Option EnvId) (contents : Bindings Value) :
    FramesApart (s.newEnvironment parent contents).2 := by
  have hsize : (s.newEnvironment parent contents).2.mappings.size = s.mappings.size + 1 := by
    simp [Store.newEnvironment, newMapping]
  refine ⟨fun env e he => ?_, fun env env' e e' he he' heq => ?_⟩
  · rw [environment?_newEnvironment] at he
    rw [hsize]
    split at he
    · cases he
      exact Nat.lt_succ_self _
    · exact Nat.lt_succ_of_lt (h.inside env e he)
  · -- the new frame lies behind all that are there
    have hfresh : ∀ env₁ e₁, s.environment? env₁ = some e₁ → e₁.frame ≠ ⟨s.mappings.size⟩ := by
      intro env₁ e₁ h₁ hf
      have hlt := h.inside env₁ e₁ h₁
      rw [hf] at hlt
      exact Nat.lt_irrefl _ hlt
    rw [environment?_newEnvironment] at he he'
    split at he <;> split at he'
    · next h₁ h₂ => rw [h₁, h₂]
    · cases he
      exact absurd heq.symm (hfresh env' e' he')
    · cases he'
      exact absurd heq (hfresh env e he)
    · exact h.apart env env' e e' he he' heq

theorem touched (ht : Touched s t) (h : FramesApart s) : FramesApart t := by
  induction ht with
  | refl => exact h
  | trans _ _ ih ih' => exact ih' (ih h)
  | mark | promise | emit => exact h.of_environments rfl (Nat.le_refl _)
  | note s level r =>
    unfold Store.note
    split <;> exact h.of_environments rfl (Nat.le_refl _)
  | mapping s => exact h.of_environments rfl (by simp [newMapping])
  | root s => exact h.newEnvironment none ∅
  | child s env contents => exact h.newEnvironment _ contents
  | bind s env name v => exact h.of_environments (environments_bind s env name v) (by simp)
  | write s id name v => exact h.of_environments rfl (by simp)

/-- Every run keeps frames apart. -/
theorem law : TraceLaw fun s _ t => FramesApart s → FramesApart t where
  touched ht := touched ht
  append h h' hs := h' (h hs)
  stopped _ _ h := h
  returned _ _ _ h := h
  cached _ h := h
  answered _ _ h hs := (h hs).of_environments rfl (Nat.le_refl _)

end FramesApart

/-- In all that a host does from an empty store on, frames stay apart. -/
theorem framesApart_session (host : Host) (h : host.store = .empty)
    (session : List HostOperation) : (HostSession.after session host).store.FramesApart :=
  FramesApart.law.hostSession session host (h ▸ .empty)

/-- A promise that waits to be forced was made in this environment. -/
def Captured (s : Store) (env : EnvId) : Prop :=
  ∃ id, (s.promise id).memo = none ∧ (s.promise id).env = env

end Store

/-! ## Staying at home -/

/-- Binding, evaluating and putting off happens in environments of `home`, and a mapping
that is written to is no frame. -/
def Conduct.atHome (home : EnvId → Prop) (framed : MappingId → Prop) : Conduct where
  asks
    | .evaluate _ env | .applyNative _ _ env | .newPromise _ env | .bind env _ _ => home env
    | .write id _ _ => ¬ framed id
    | _ => True
  hears
    | .newChild _, env => home env
    | _, _ => True
  raises _ := True

/-- The frames of a store. -/
def Store.IsFrame (s : Store) (id : MappingId) : Prop :=
  ∃ env e, s.environment? env = some e ∧ e.frame = id

/-- Natives bind names, and have expressions evaluated or put off, only in the environment
they are called from, in those they make and in those of `named`; and the mappings that
they write to themselves are not frames of the store. -/
def Library.StaysHome (library : Library) (s : Store) (named : EnvId → Prop) : Prop :=
  ∀ home : EnvId → Prop, (∀ env, named env → home env) → ∀ key params env, home env →
    (library key params env).Obeys (.atHome home s.IsFrame) fun _ => True

/-! ## The invariant -/

/-- What a run from `s` has done so far: environments are still there, with their links,
and those outside `home` with their frames; environments made since have frames made
since; and promises that wait were made at home. -/
structure Footprint (home : EnvId → Prop) (s t : Store) : Prop where
  links : ∀ env, env.index < s.environments.size → t.environment? env = s.environment? env
  size : s.environments.size ≤ t.environments.size
  mappings : s.mappings.size ≤ t.mappings.size
  fresh : ∀ env e, s.environments.size ≤ env.index → t.environment? env = some e →
    s.mappings.size ≤ e.frame.index
  frames : ∀ env e, ¬ home env → s.environment? env = some e →
    t.mapping e.frame = s.mapping e.frame
  pending : ∀ id, (t.promise id).memo = none → home (t.promise id).env

namespace Footprint
variable {home : EnvId → Prop} {s t u : Store}

theorem start (hp : ∀ env, s.Captured env → home env) : Footprint home s s where
  links _ _ := rfl
  size := Nat.le_refl _
  mappings := Nat.le_refl _
  fresh _ _ h he := absurd (Store.lt_of_environment? he) (Nat.not_lt.mpr h)
  frames _ _ _ _ := rfl
  pending id h := hp _ ⟨id, h, rfl⟩

/-- The parts of the store that the invariant speaks of are the same. -/
theorem of_same (h : Footprint home s t) (he : u.environments = t.environments)
    (hm : u.mappings = t.mappings) (hp : u.promises = t.promises) : Footprint home s u := by
  have henv : u.environment? = t.environment? := by
    funext env
    unfold Store.environment?
    rw [he]
  have hmap : u.mapping = t.mapping := by
    funext id
    unfold Store.mapping
    rw [hm]
  have hpro : u.promise = t.promise := by
    funext id
    unfold Store.promise
    rw [hp]
  constructor
  · rw [henv]; exact h.links
  · rw [he]; exact h.size
  · rw [hm]; exact h.mappings
  · rw [henv]; exact h.fresh
  · rw [hmap]; exact h.frames
  · rw [hpro]; exact h.pending

theorem note (h : Footprint home s t) (level : Int) (r : Record) :
    Footprint home s (t.note level r) := by
  unfold Store.note
  split
  · exact h.of_same rfl rfl rfl
  · exact h

theorem newPromise (h : Footprint home s t) (e : Value) {env : EnvId} (he : home env) :
    Footprint home s (t.newPromise e env).2 where
  links := h.links
  size := h.size
  mappings := h.mappings
  fresh := h.fresh
  frames := h.frames
  pending id hm := by
    rw [Store.promise_newPromise] at hm ⊢
    split
    · exact he
    · next hne => exact h.pending id (by rwa [if_neg hne] at hm)

theorem memoise (h : Footprint home s t) (id : PromiseId) (a : Answer) :
    Footprint home s (t.memoise id a) where
  links := h.links
  size := h.size
  mappings := h.mappings
  fresh := h.fresh
  frames := h.frames
  pending other hm := by
    rw [Store.promise_memoise] at hm ⊢
    by_cases hc : id = other ∧ id.index < t.promises.size
    · rw [if_pos hc] at hm
      cases hm
    · rw [if_neg hc] at hm ⊢
      exact h.pending other hm

/-- A frame that was there at the start is not the next mapping to be made. -/
theorem frame_ne (h : Footprint home s t) (hs : s.FramesApart) {env : EnvId} {e : Environment}
    (he : s.environment? env = some e) : e.frame ≠ ⟨t.mappings.size⟩ := by
  intro hf
  have hlt := hs.inside env e he
  have hle := h.mappings
  rw [hf] at hlt
  exact Nat.lt_irrefl _ (Nat.lt_of_lt_of_le hlt hle)

theorem newMapping (h : Footprint home s t) (hs : s.FramesApart) (contents : Bindings Value) :
    Footprint home s (t.newMapping contents).2 where
  links := h.links
  size := h.size
  mappings := Nat.le_trans h.mappings (by simp [Store.newMapping])
  fresh := h.fresh
  frames env e hn he := by
    have hne : e.frame ≠ (t.newMapping contents).1 := h.frame_ne hs he
    rw [Store.mapping_newMapping, if_neg hne]
    exact h.frames env e hn he
  pending := h.pending

theorem newEnvironment (h : Footprint home s t) (hs : s.FramesApart) (parent : Option EnvId)
    (contents : Bindings Value) : Footprint home s (t.newEnvironment parent contents).2 where
  links env hlt := by
    have hne : env ≠ (t.newEnvironment parent contents).1 := by
      rintro rfl
      exact absurd h.size (Nat.not_le.mpr hlt)
    rw [Store.environment?_newEnvironment, if_neg hne]
    exact h.links env hlt
  size := Nat.le_trans h.size (by simp [Store.newEnvironment, Store.newMapping])
  mappings := Nat.le_trans h.mappings (by simp [Store.newEnvironment, Store.newMapping])
  fresh env e hle he := by
    rw [Store.environment?_newEnvironment] at he
    split at he
    · cases he
      exact h.mappings
    · exact h.fresh env e hle he
  frames := (h.newMapping hs contents).frames
  pending := h.pending

/-- Writing to a mapping that is no frame outside `home`. -/
theorem write (h : Footprint home s t) {id : MappingId} (name : String) (v : Value)
    (hid : ∀ env e, ¬ home env → s.environment? env = some e → e.frame ≠ id) :
    Footprint home s (t.write id name v) where
  links := h.links
  size := h.size
  mappings := by simpa using h.mappings
  fresh := h.fresh
  frames env e hn he := by
    have hne : ¬ (id = e.frame ∧ id.index < t.mappings.size) := fun hc => hid env e hn he hc.1.symm
    rw [Store.mapping_write, if_neg hne]
    exact h.frames env e hn he
  pending := h.pending

/-- Binding a name at home writes to no frame elsewhere: a frame that is there belongs to
one environment, and one that is new is no frame of the start. -/
theorem bind (h : Footprint home s t) (hs : s.FramesApart) {env : EnvId} (name : String)
    (v : Value) (henv : home env) : Footprint home s (t.bind env name v) := by
  unfold Store.bind
  split
  · exact h
  · next e he =>
    refine h.write name v fun other e' hn he' hf => ?_
    by_cases hlt : env.index < s.environments.size
    · rw [h.links env hlt] at he
      have hsame : other = env := hs.apart other env e' e he' he hf
      rw [hsame] at hn
      exact hn henv
    · have hge := h.fresh env e (Nat.not_lt.mp hlt) he
      have hin := hs.inside other e' he'
      rw [hf] at hin
      omega

end Footprint

/-! ## Runs -/

theorem endStore_render (d : Nat) (v : Value) (s : Store) : endStore (EvalM.render d v s) = s := by
  unfold EvalM.render
  split <;> rfl

/-- The computation keeps the footprint, and what it returns is fit for `P`. -/
def KeepsFootprint (home : EnvId → Prop) (s : Store) {α β : Type} (w : Unit)
    (P : Unit → α → β → Prop) (x : EvalM α) (_ : Unit → EvalM β) : Prop :=
  ∀ t, Footprint home s t →
    Footprint home s (endStore (x t)) ∧ ∀ a u, x t = .ok a u → ∃ b, P w a b

/-- Things are alike that are the same; expressions are evaluated at home. -/
def Likeness.atHome (home : EnvId → Prop) (framed : MappingId → Prop) : Likeness where
  World := Unit
  le _ _ := True
  like _ := Eq
  env _ := Eq
  place _ e e' := e = e' ∧ home e
  mark _ := Eq
  fault _ _ _ := True
  permits := (Conduct.atHome home framed).asks
  verbatim := True
  shape := by
    rintro _ v _ rfl
    exact .refl (fun _ => rfl) v
  nil _ := rfl
  like_mono _ h := h
  place_mono _ h := h
  env_of_place h := h.1

namespace KeepsFootprint
variable {home : EnvId → Prop} {s : Store} {α β : Type} {w : Unit} {P : Unit → α → β → Prop}
variable {y : Unit → EvalM β}

/-- A computation that always returns. -/
theorem of_ok {x : EvalM α} (hx : ∀ t, Footprint home s t →
    ∃ a u, x t = .ok a u ∧ Footprint home s u ∧ ∃ b, P w a b) : KeepsFootprint home s w P x y := by
  intro t ht
  obtain ⟨a, u, hr, hfoot, hb⟩ := hx t ht
  rw [hr]
  refine ⟨hfoot, fun a' u' he => ?_⟩
  cases he
  exact hb

/-- A computation that leaves the store alone. -/
theorem of_still {x : EvalM α} (hx : ∀ t, endStore (x t) = t)
    (hp : ∀ t a u, x t = .ok a u → ∃ b, P w a b) : KeepsFootprint home s w P x y := by
  intro t ht
  rw [hx t]
  exact ⟨ht, hp t⟩

end KeepsFootprint

section Law
variable {home : EnvId → Prop} {framed : MappingId → Prop} {s : Store}

/-- What a native at home may ask for is alike to itself. -/
theorem diagonal_atHome : (Likeness.atHome home framed).Diagonal (.atHome home framed) where
  like_eq _ _ h := Eq.symm h
  env_eq _ _ h := Eq.symm h
  mark_eq h := Eq.symm h
  verbatim := trivial
  permits h := h
  asks _ r h := by
    cases r with
    | evaluate | newPromise => exact ⟨rfl, rfl, h⟩
    | applyNative => exact ⟨rfl, rfl, rfl, h⟩
    | applyClosure | bind | write => exact ⟨rfl, rfl⟩
    | newMapping | newMark | effects => trivial
    | _ => rfl
  hears {_ r _} _ hr := by
    cases r with
    | newChild => exact hr.2
    | _ => trivial

/-- Computations that keep the footprint follow the law of evaluation. -/
theorem KeepsFootprint.sideBySide (m : Machine) (d : Nat) (hs : s.FramesApart)
    (hnew : ∀ env, s.environments.size ≤ env.index → home env)
    (hlib : ∀ key params env, home env →
      (m.library key params env).Obeys (.atHome home s.IsFrame) fun _ => True) :
    SideBySide (.atHome home s.IsFrame) m (fun _ => m) d (fun _ => d) (KeepsFootprint home s) where
  pure hp := of_ok fun t ht => ⟨_, _, rfl, ht, _, hp⟩
  bind {_ _ _ _ _ _ _ x _ f _} hx hf := by
    intro t ht
    obtain ⟨hfoot, hret⟩ := hx t ht
    cases hr : x t with
    | ok a u =>
      rw [hr] at hfoot
      obtain ⟨b, hb⟩ := hret a u hr
      rw [EvalM.bind_ok hr]
      exact hf () a b trivial hb u hfoot
    | error e u =>
      rw [hr] at hfoot
      rw [EvalM.bind_error hr]
      exact ⟨hfoot, fun a u he => by cases he⟩
  render {_ v _} _ :=
    of_still (endStore_render d v) fun t a u _ => ⟨a, fun _ => rfl⟩
  note source severity _ _ _ := of_ok fun t ht => ⟨_, _, rfl, ht.note _ _, (), trivial⟩
  lookup name _ := of_ok fun t ht => ⟨_, _, rfl, ht, _, optionRel_of_eq rfl⟩
  newPair _ _ := of_ok fun t ht => ⟨_, _, rfl, ht.of_same rfl rfl rfl, _, rfl⟩
  newPromise _ he := of_ok fun t ht => ⟨_, _, rfl, ht.newPromise _ he.2, _, rfl⟩
  enter {_ c _ params _} _ _ := by
    intro t ht
    have hchild := ht.newEnvironment hs
      (if c.env.index < t.environments.size then some c.env else none)
      (matchParams c.params params ∅).frame
    have hhome : home ⟨t.environments.size⟩ := hnew _ ht.size
    unfold Machine.enter
    simp only [bind, EStateM.bind, EvalM.act]
    split
    · exact ⟨hchild.note _ _, fun a u he => by cases he; exact ⟨_, ⟨rfl, hhome⟩, rfl⟩⟩
    · exact ⟨hchild, fun a u he => by cases he; exact ⟨_, ⟨rfl, hhome⟩, rfl⟩⟩
  report {_ _ _ a _} _ _ := by
    unfold Machine.reportFailure
    split
    · exact of_ok fun t ht => ⟨_, _, rfl, ht, (), trivial⟩
    · exact of_ok fun t ht => ⟨_, _, rfl, ht.note _ _, (), trivial⟩
  raise _ := by
    refine of_still (fun t => ?_) fun t a u he => ?_
    · unfold EvalM.raise
      split <;> rfl
    · unfold EvalM.raise at he
      split at he <;> cases he
  request := by
    intro w r r' Q self self' hr ha
    cases ha with
    | chain he =>
      cases he
      exact of_ok fun t ht => ⟨_, _, rfl, ht, _, List.forall₂_same.mpr fun _ _ => rfl⟩
    | lookup name => exact of_ok fun t ht => ⟨_, _, rfl, ht, _, optionRel_of_eq rfl⟩
    | bind name => exact of_ok fun t ht => ⟨_, _, rfl, ht.bind hs name _ hr, (), trivial⟩
    | newChild =>
      exact of_ok fun t ht => ⟨_, _, rfl, ht.newEnvironment hs _ ∅, _, rfl, hnew _ ht.size⟩
    | newMapping => exact of_ok fun t ht => ⟨_, _, rfl, ht.newMapping hs ∅, _, rfl⟩
    | read name => exact of_ok fun t ht => ⟨_, _, rfl, ht, _, optionRel_of_eq rfl⟩
    | write name =>
      refine of_ok fun t ht => ⟨_, _, rfl, ht.write name _ fun env e _ he hf => ?_, (), trivial⟩
      exact hr ⟨env, e, he, hf⟩
    | newPromise _ he => exact of_ok fun t ht => ⟨_, _, rfl, ht.newPromise _ hr, _, rfl⟩
    | newMark => exact of_ok fun t ht => ⟨_, _, rfl, ht.of_same rfl rfl rfl, _, rfl⟩
    | emit => exact of_ok fun t ht => ⟨_, _, rfl, ht.of_same rfl rfl rfl, (), trivial⟩
    | effects => exact of_ok fun t ht => ⟨_, _, rfl, ht, _, List.forall₂_same.mpr fun _ _ => rfl⟩
    | render =>
      exact of_still (endStore_render d _) fun t a u _ => ⟨a, fun _ => rfl⟩
  library _ := rfl
  conduct := by
    rintro w p _ params _ env _ ⟨⟩ rfl ⟨rfl, he⟩
    exact diagonal_atHome.scripts (fun _ _ _ => trivial) (fun _ a _ => ⟨rfl, rfl⟩)
      (hlib p.routine params env he)

/-- **Every call keeps the footprint.** -/
theorem keepsFootprint_perform {m : Machine} (hs : s.FramesApart)
    (hnew : ∀ env, s.environments.size ≤ env.index → home env)
    (hlib : ∀ key params env, home env →
      (m.library key params env).Obeys (.atHome home s.IsFrame) fun _ => True)
    (depth : Nat) {w : Unit} {c c' : Call} (hc : (Likeness.atHome home s.IsFrame).Calls w c c') :
    KeepsFootprint home s w (Likeness.atHome home s.IsFrame).Answers (m.perform depth c)
      fun _ => m.perform depth c' := by
  induction depth generalizing w c c' with
  | zero => exact .of_still (fun _ => rfl) fun t a u he => by cases he
  | succ depth ih =>
    have law := KeepsFootprint.sideBySide m depth hs hnew hlib
    have hself : ∀ w c c', (Likeness.atHome home s.IsFrame).Calls w c c' →
        KeepsFootprint home s w (Likeness.atHome home s.IsFrame).Answers (m.perform depth c)
          fun _ => m.perform depth c' := fun w c c' hc => ih hc
    have hstop : ∀ w, KeepsFootprint home s w (Likeness.atHome home s.IsFrame).Answers
        (EvalM.stop .unfinished) fun _ => EvalM.stop .unfinished :=
      fun w => .of_still (fun _ => rfl) fun t a u he => by cases he
    refine law.step hself (fun w v v' hv => law.forceWith hself hstop m.links hv) ?_ hc
    intro w id id' _ t ht
    cases hm : (t.promise id).memo with
    | some a =>
      rw [forceOnceWith_of_some hm]
      exact ⟨ht, fun a' u he => by cases he; exact ⟨a, rfl, rfl⟩⟩
    | none =>
      -- a promise that waits was made at home
      rw [forceOnceWith_of_none hm]
      have hcall : (Likeness.atHome home s.IsFrame).Calls w
          (.evaluate (t.promise id).expression (t.promise id).env)
          (.evaluate (t.promise id).expression (t.promise id).env) :=
        .evaluate rfl ⟨rfl, ht.pending id hm⟩
      have heval := (hself w _ _ hcall t ht).1
      cases hr : m.perform depth (.evaluate (t.promise id).expression (t.promise id).env) t with
      | ok a u =>
        rw [hr] at heval
        rw [EvalM.bind_ok hr]
        exact ⟨heval.memoise id a, fun a' u he => by cases he; exact ⟨a, rfl, rfl⟩⟩
      | error e u =>
        rw [hr] at heval
        rw [EvalM.bind_error hr]
        exact ⟨heval, fun a' u he => by cases he⟩

/-- The store that a call leaves, from a start in which the promises that wait were made
at home. -/
theorem footprint_perform {m : Machine} (hs : s.FramesApart)
    (hnew : ∀ env, s.environments.size ≤ env.index → home env)
    (hlib : ∀ key params env, home env →
      (m.library key params env).Obeys (.atHome home s.IsFrame) fun _ => True)
    (hp : ∀ env, s.Captured env → home env) (depth : Nat) {c : Call}
    (hc : (Likeness.atHome home s.IsFrame).Calls () c c) :
    Footprint home s (endStore (m.perform depth c s)) :=
  (keepsFootprint_perform hs hnew hlib depth hc s (.start hp)).1

/-- A frame outside `home` is as it was. -/
theorem Footprint.frame_eq {t : Store} (h : Footprint home s t) {env : EnvId}
    (hlt : env.index < s.environments.size) (hn : ¬ home env) : t.frame env = s.frame env := by
  unfold Store.frame
  rw [h.links env hlt]
  cases he : s.environment? env with
  | none => rfl
  | some e => exact h.frames env e hn he

end Law

/-! ## Main results -/

/-- **Where evaluation writes.** Natives stay at home, apart from the environments of
`named`. Then evaluating an expression, whether it answers or stops, leaves the links of
all environments that are there, and the frames of all but those of `named`, the one it
evaluates in and those that waiting promises were made in. Applying a closure leaves the
frames of all but `named` and those that waiting promises were made in, so it leaves
that of the environment the closure was made in unless this is one of them. -/
theorem evaluate_footprint (m : Machine) (depth : Nat) (s : Store) (named : EnvId → Prop)
    (hs : s.FramesApart) (hlib : m.library.StaysHome s named) :
    (∀ (e : Value) (env other : EnvId), other.index < s.environments.size →
      (endStore (m.evaluate depth e env s)).environment? other = s.environment? other ∧
      (other ≠ env → ¬ named other → ¬ s.Captured other →
        (endStore (m.evaluate depth e env s)).frame other = s.frame other)) ∧
    ∀ (c : Closure) (params : Value) (other : EnvId), other.index < s.environments.size →
      (endStore (m.applyClosure depth c params s)).environment? other = s.environment? other ∧
      (¬ named other → ¬ s.Captured other →
        (endStore (m.applyClosure depth c params s)).frame other = s.frame other) := by
  constructor
  · intro e env other hlt
    let home : EnvId → Prop := fun env' =>
      env' = env ∨ named env' ∨ s.Captured env' ∨ s.environments.size ≤ env'.index
    have hfoot : Footprint home s (endStore (m.evaluate depth e env s)) := by
      refine footprint_perform hs (fun _ h => .inr (.inr (.inr h))) ?_
        (fun _ h => .inr (.inr (.inl h))) depth (.evaluate rfl ⟨rfl, .inl rfl⟩)
      exact hlib home fun _ h => .inr (.inl h)
    refine ⟨hfoot.links other hlt, fun hne hnamed hcaptured => hfoot.frame_eq hlt ?_⟩
    rintro (h | h | h | h)
    · exact hne h
    · exact hnamed h
    · exact hcaptured h
    · exact absurd h (Nat.not_le.mpr hlt)
  · intro c params other hlt
    let home : EnvId → Prop := fun env' =>
      named env' ∨ s.Captured env' ∨ s.environments.size ≤ env'.index
    have hfoot : Footprint home s (endStore (m.applyClosure depth c params s)) := by
      refine footprint_perform hs (fun _ h => .inr (.inr h)) ?_ (fun _ h => .inr (.inl h)) depth
        (.closure rfl rfl)
      exact hlib home fun _ h => .inl h
    refine ⟨hfoot.links other hlt, fun hnamed hcaptured => hfoot.frame_eq hlt ?_⟩
    rintro (h | h | h)
    · exact hnamed h
    · exact hcaptured h
    · exact absurd h (Nat.not_le.mpr hlt)

/-! ## Samples -/

/-- A rule under which a native writes to no frame but that of its caller's environment,
while it may have expressions evaluated anywhere. -/
def Conduct.ownFrame (env : EnvId) : Conduct where
  asks
    | .bind other _ _ => other = env
    | .write .. => False
    | _ => True
  hears _ _ := True
  raises _ := True

namespace Prelude

/-- Definitions and closures. -/
def defining : Library := fun key =>
  if key = "define" then define else if key = "lambda" then lambda "lambda" false
  else fun _ _ => pure .failure

/-- Definitions, and evaluation in the environment around. -/
def climbing : Library := fun key =>
  if key = "define" then define else if key = "up" then up else fun _ _ => pure .failure

/-- An outermost environment with natives, two environments inside it, and a promise made
in the second of these. -/
def scopes : Store :=
  let s := (Store.empty.newEnvironment none (frame ["define", "lambda", "up"])).2
  let s := ((s.newEnvironment (some ⟨0⟩) ∅).2.newEnvironment (some ⟨0⟩) ∅).2
  (s.newPromise (.symbol "x") ⟨2⟩).2

theorem scopes_framesApart : scopes.FramesApart := by
  have hroot := Store.FramesApart.empty.newEnvironment none (frame ["define", "lambda", "up"])
  have hall := (hroot.newEnvironment (some ⟨0⟩) ∅).newEnvironment (some ⟨0⟩) ∅
  exact hall.of_environments rfl (Nat.le_refl _)

/-- Only the promise waits. -/
theorem scopes_captured {env : EnvId} (h : scopes.Captured env) : env = ⟨2⟩ := by
  obtain ⟨⟨i⟩, hm, rfl⟩ := h
  match i with
  | 0 => rfl
  | i + 1 =>
    have hlt := Store.lt_of_promise_memo hm
    have hsize : scopes.promises.size = 1 := rfl
    simp only [hsize] at hlt
    omega

section Obedience
variable {C : Conduct} {params : Value} {env : EnvId}

/-- A definition evaluates and binds where it is called from. -/
theorem define_obeys (hraise : ∀ fault, C.raises fault)
    (heval : ∀ e, C.asks (.evaluate e env)) (hbind : ∀ name v, C.asks (.bind env name v)) :
    (define params env).Obeys C fun _ => True := by
  refine .bind (.arguments (E := fun _ => True) trivial (hraise _)) fun args _ => ?_
  split
  · next key e =>
    refine .bind (.request (E := fun _ => True) (heval e) fun _ _ => trivial) fun a _ => ?_
    unfold bindAnswer
    split
    · exact .bind (.request (E := fun _ => True) (hbind key a.value) fun _ _ => trivial)
        fun _ _ => .pure trivial
    · exact .pure trivial
  · exact .pure trivial

/-- Making a closure takes a mark. -/
theorem lambda_obeys (hraise : ∀ fault, C.raises fault) (hmark : C.asks .newMark) (name : String)
    (isLazy : Bool) : (lambda name isLazy params env).Obeys C fun _ => True := by
  refine .bind (.arguments (E := fun _ => True) trivial (hraise _)) fun args _ => ?_
  split
  · next names body =>
    have hexcept {α : Type} (x : Except Fault α) :
        (Script.ofExcept x).Obeys C fun _ => True :=
      .ofExcept (fun _ _ => trivial) fun fault _ => hraise fault
    refine .bind (hexcept _) fun elements _ => .bind (hexcept _) fun names _ => ?_
    exact .bind (.request (E := fun _ => True) hmark fun _ _ => trivial) fun _ _ => .pure trivial
  · exact .pure trivial

/-- Evaluating in the environment around follows the links and evaluates there. -/
theorem up_obeys (hraise : ∀ fault, C.raises fault) (hchain : C.asks (.chain env))
    (heval : ∀ e other, C.asks (.evaluate e other)) : (up params env).Obeys C fun _ => True := by
  refine .bind (.arguments (E := fun _ => True) trivial (hraise _)) fun args _ => ?_
  split
  · refine .bind (.request (E := fun _ => True) hchain fun _ _ => trivial) fun chain _ => ?_
    split
    · exact .request (heval _ _) fun _ _ => trivial
    · exact hraise _
  · exact .pure trivial

end Obedience

theorem defining_staysHome (s : Store) : defining.StaysHome s fun _ => False := by
  intro home _ key params env henv
  unfold defining
  split
  · exact define_obeys (fun _ => trivial) (fun _ => henv) fun _ _ => henv
  · split
    · exact lambda_obeys (fun _ => trivial) trivial _ _
    · exact .pure trivial

theorem climbing_ownFrame (key : String) (params : Value) (env : EnvId) :
    (climbing key params env).Obeys (.ownFrame env) fun _ => True := by
  unfold climbing
  split
  · exact define_obeys (fun _ => trivial) (fun _ => trivial) fun _ _ => rfl
  · split
    · exact up_obeys (fun _ => trivial) trivial fun _ _ => trivial
    · exact .pure trivial

end Prelude

/-- In the first inner environment, a definition of the result of a closure that defines
something itself leaves the outermost frame alone, where the closure was made. -/
theorem scopes_footprint :
    (Prelude.scopes.FramesApart ∧ Prelude.defining.StaysHome Prelude.scopes fun _ => False) ∧
      (endStore (({ Prelude.machine with library := Prelude.defining } : Machine).evaluate 20
        (form [.symbol "define", .symbol "y", form [form [.symbol "lambda", .nil,
          form [.symbol "define", .symbol "x", .integer 1]]]]) ⟨1⟩ Prelude.scopes)).frame ⟨0⟩ =
        Prelude.scopes.frame ⟨0⟩ := by
  have hs := Prelude.scopes_framesApart
  have hlib := Prelude.defining_staysHome Prelude.scopes
  refine ⟨⟨hs, hlib⟩, ?_⟩
  refine ((evaluate_footprint { Prelude.machine with library := Prelude.defining } 20 Prelude.scopes
    (fun _ => False) hs hlib).1 _ ⟨1⟩ ⟨0⟩ (by decide)).2 (by decide) id fun hcaptured => ?_
  exact absurd (Prelude.scopes_captured hcaptured) (by decide)

/-- Natives can write to the frame of an environment that is neither the one of the
evaluation nor that of a waiting promise, though each of them writes to none but that of
its caller: evaluating a definition in the environment around does. -/
theorem up_writes_parent :
    Prelude.scopes.FramesApart ∧
      (∀ key params env, (Prelude.climbing key params env).Obeys (.ownFrame env) fun _ => True) ∧
      ¬ Prelude.scopes.Captured ⟨0⟩ ∧ (Prelude.scopes.frame ⟨0⟩).find? "x" = none ∧
      ((endStore (({ Prelude.machine with library := Prelude.climbing } : Machine).evaluate 20
        (form [.symbol "up", form [.symbol "define", .symbol "x", .integer 1]]) ⟨1⟩
        Prelude.scopes)).frame ⟨0⟩).find? "x" = some (.integer 1) := by
  refine ⟨Prelude.scopes_framesApart, Prelude.climbing_ownFrame, fun hcaptured => ?_, rfl, rfl⟩
  exact absurd (Prelude.scopes_captured hcaptured) (by decide)

end LispCore
