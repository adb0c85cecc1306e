import LispCore.Proofs.Touch

/-! # Traces

The calls that a run makes, in the order in which they end. `TraceM` is a
setting like `EvalM` that writes them down, and `Machine.traced` is the evaluator
in it: the same step in another setting, so that leaving the trace out gives
`Machine.perform` again (`traced_plain`).

Four facts hold of every trace. A call that stopped stopped the whole run in
the same way, since nothing catches a stop (`traced_propagates`). Each call is
a step with the calls inside it (`traced_genuine`). A run that stopped was stopped by
one of its calls on its own account, while every call inside that one had
returned (`traced_blames`). And a relation between stores, with the trace between
them, that every kind of call keeps is kept by every run (`TraceLaw.traced`). -/
namespace LispCore

open Store (Touched)

/-- A call that has ended: the store it started in, how it ended, and the calls
that ended inside it. -/
inductive Made where
  | mk (call : Call) (start : Store) (outcome : EStateM.Result Stop Store Answer)
    (inner : List Made)

namespace Made

def call : Made → Call
  | mk call _ _ _ => call

def start : Made → Store
  | mk _ start _ _ => start

def outcome : Made → EStateM.Result Stop Store Answer
  | mk _ _ outcome _ => outcome

def inner : Made → List Made
  | mk _ _ _ inner => inner

/-- The store that the call left. -/
def after (c : Made) : Store := endStore c.outcome

def Returned (c : Made) : Prop := ∃ a s, c.outcome = .ok a s

end Made

/-- Computations on the store that keep the calls they make. -/
def TraceM (α : Type) : Type := Store → EStateM.Result Stop Store α × List Made

namespace TraceM
variable {α β : Type}

instance : Monad TraceM where
  pure a := fun s => (.ok a s, [])
  bind x f := fun s =>
    match x s with
    | (.ok a s', l) => ((f a s').1, l ++ (f a s').2)
    | (.error e s', l) => (.error e s', l)

instance : MonadLift EvalM TraceM where
  monadLift x := fun s => (x s, [])

/-- The computation without its trace. -/
def plain (x : TraceM α) : EvalM α := fun s => (x s).1

/-- Writes a call down when it has ended. -/
def enclose (call : Call) (x : TraceM Answer) : TraceM Answer := fun s =>
  ((x s).1, (x s).2 ++ [.mk call s (x s).1 (x s).2])

theorem pure_apply (a : α) (s : Store) : (pure a : TraceM α) s = (.ok a s, []) := rfl

theorem read_bind (f : Store → α) (k : α → TraceM β) (s : Store) :
    ((liftM (EvalM.read f) : TraceM α) >>= k) s = k (f s) s := rfl

theorem change_bind (f : Store → Store) (k : Unit → TraceM β) (s : Store) :
    ((liftM (EvalM.change f) : TraceM Unit) >>= k) s = k () (f s) := rfl

theorem bind_ok {x : TraceM α} {f : α → TraceM β} {s s' : Store} {a : α} {l : List Made}
    (h : x s = (.ok a s', l)) : (x >>= f) s = ((f a s').1, l ++ (f a s').2) := by
  change (match x s with | (.ok a s', l) => _ | (.error e s', l) => _) = _
  rw [h]

theorem bind_error {x : TraceM α} {f : α → TraceM β} {s s' : Store} {e : Stop} {l : List Made}
    (h : x s = (.error e s', l)) : (x >>= f) s = (.error e s', l) := by
  change (match x s with | (.ok a s', l) => _ | (.error e s', l) => _) = _
  rw [h]

theorem render_of_ok {d : Nat} {v : Value} {s : Store} {text : String}
    (h : s.render d v = .ok text) :
    (liftM (EvalM.render d v) : TraceM String) s = (.ok text s, []) := by
  change (EvalM.render d v s, []) = _
  simp only [EvalM.render, h]

theorem render_of_error {d : Nat} {v : Value} {s : Store} {why : Unwritable}
    (h : s.render d v = .error why) :
    (liftM (EvalM.render d v) : TraceM String) s = (.error why.stop s, []) := by
  change (EvalM.render d v s, []) = _
  simp only [EvalM.render, h]

/-- A computation ends in an answer or in a stop, with some trace. -/
theorem cases (x : TraceM α) (s : Store) :
    (∃ a s' l, x s = (.ok a s', l)) ∨ ∃ e s' l, x s = (.error e s', l) := by
  obtain ⟨r, l⟩ := x s
  cases r with
  | ok a s' => exact .inl ⟨a, s', l, rfl⟩
  | error e s' => exact .inr ⟨e, s', l, rfl⟩

end TraceM

namespace Machine

/-- Makes a call with `depth` levels left and keeps the calls it makes. -/
def traced (m : Machine) : (depth : Nat) → Call → TraceM Answer
  | 0, call => .enclose call (liftM (.stop .tooDeep : EvalM Answer))
  | depth + 1, call => .enclose call (m.step depth (m.traced depth) call)

end Machine

/-! ## Leaving the trace out -/

/-- A computation with a trace is another one once the trace is left out. -/
def Erases (α : Type) (x : TraceM α) (y : EvalM α) : Prop := x.plain = y

theorem Erases.sequential : Sequential Erases where
  pure _ := rfl
  bind {_ _ x _ f g} hx hf := by
    subst hx
    funext s
    change ((x >>= f) s).1 = (x.plain >>= g) s
    rcases x.cases s with ⟨a, s', l, h⟩ | ⟨e, s', l, h⟩
    · have hx : x.plain s = .ok a s' := congrArg Prod.fst h
      rw [TraceM.bind_ok h, EvalM.bind_ok hx, ← hf a]
      rfl
    · have hx : x.plain s = .error e s' := congrArg Prod.fst h
      rw [TraceM.bind_error h, EvalM.bind_error hx]

theorem erases_respects (m : Machine) (d : Nat) : Respects m m d d Erases where
  evaluator := ⟨Erases.sequential, fun h => h.eq ▸ rfl⟩
  enter _ _ := rfl
  native := ⟨Erases.sequential, rfl, fun h => h.eq ▸ rfl⟩

/-- **A traced run is the run itself.** -/
theorem traced_plain (m : Machine) (d : Nat) (c : Call) : (m.traced d c).plain = m.perform d c := by
  induction d generalizing c with
  | zero => rfl
  | succ d ih =>
    have hs : ∀ c, Erases Answer (m.traced d c) (m.perform d c) := ih
    exact (erases_respects m d).step hs (Erases.sequential.forceWith hs rfl m.links)
      (fun id => Erases.sequential.forceOnceWith hs id rfl fun _ => rfl) c

theorem traced_fst (m : Machine) (d : Nat) (c : Call) (s : Store) :
    (m.traced d c s).1 = m.perform d c s :=
  congrFun (traced_plain m d c) s

/-! ## Stops are never caught -/

/-- A call that stopped stopped the computation in the same way. -/
def Propagates (α : Type) (x _y : TraceM α) : Prop :=
  ∀ s, ∀ c ∈ (x s).2, ∀ e t, c.outcome = .error e t → (x s).1 = .error e t

theorem Propagates.lift {α : Type} (x : EvalM α) {y : TraceM α} :
    Propagates α (liftM x) y := by
  intro s c hc
  cases hc

theorem Propagates.sequential : Sequential Propagates where
  pure a := by
    intro s c hc
    cases hc
  bind {_ _ x _ f _} hx hf := by
    intro s c hc e t he
    rcases x.cases s with ⟨a, s', l, h⟩ | ⟨e', s', l, h⟩
    · rw [TraceM.bind_ok h] at hc ⊢
      rcases List.mem_append.mp hc with hc | hc
      · have := hx s c (h ▸ hc) e t he
        rw [h] at this; cases this
      · exact hf a s' c hc e t he
    · rw [TraceM.bind_error h] at hc ⊢
      have := hx s c (h ▸ hc) e t he
      rw [h] at this; cases this
      rfl

theorem Propagates.enclose {x y : TraceM Answer} (call : Call) (h : Propagates Answer x y) :
    Propagates Answer (.enclose call x) y := by
  intro s c hc e t he
  rcases List.mem_append.mp hc with hc | hc
  · exact h s c hc e t he
  · rw [List.mem_singleton.mp hc] at he
    exact he

theorem traced_propagates (m : Machine) (d : Nat) (c : Call) :
    Propagates Answer (m.traced d c) (m.traced d c) := by
  induction d generalizing c with
  | zero => exact .enclose c (.lift _)
  | succ d ih =>
    have hr : Respects m m d d Propagates :=
      ⟨⟨Propagates.sequential, fun _ => .lift _⟩, fun _ _ => .lift _,
        ⟨Propagates.sequential, rfl, fun _ => .lift _⟩⟩
    exact .enclose c (hr.step ih (Propagates.sequential.forceWith ih (.lift _) m.links)
      (fun id => Propagates.sequential.forceOnceWith ih id (.lift _) fun _ => .lift _) c)

/-! ## A call in a trace is a step -/

theorem traced_of_step {m : Machine} {d : Nat} {c : Call} {s : Store} {l : List Made}
    {r : EStateM.Result Stop Store Answer} (h : m.step d (m.traced d) c s = (r, l)) :
    m.traced (d + 1) c s = (r, l ++ [.mk c s r l]) := by
  simp only [Machine.traced, TraceM.enclose, h]

theorem traced_snd (m : Machine) (d : Nat) (c : Call) (s : Store) :
    ∃ inner, m.traced d c s = (m.perform d c s, inner ++ [.mk c s (m.perform d c s) inner]) := by
  rw [← traced_fst]
  cases d <;> exact ⟨_, rfl⟩

/-- The call had no level left, or is one step with the calls inside it. -/
def Made.IsStep (m : Machine) (c : Made) : Prop :=
  c.outcome = .error .tooDeep c.start ∨
    ∃ d, m.step d (m.traced d) c.call c.start = (c.outcome, c.inner)

/-- All calls of the trace are steps. -/
def Genuine (m : Machine) (α : Type) (x _y : TraceM α) : Prop :=
  ∀ s, ∀ c ∈ (x s).2, c.IsStep m

theorem Genuine.lift {m : Machine} {α : Type} (x : EvalM α) {y : TraceM α} :
    Genuine m α (liftM x) y := by
  intro s c hc
  cases hc

theorem Genuine.sequential (m : Machine) : Sequential (Genuine m) where
  pure a := by
    intro s c hc
    cases hc
  bind {_ _ x _ f _} hx hf := by
    intro s c hc
    rcases x.cases s with ⟨a, s', l, h⟩ | ⟨e, s', l, h⟩
    · rw [TraceM.bind_ok h] at hc
      rcases List.mem_append.mp hc with hc | hc
      · exact hx s c (h ▸ hc)
      · exact hf a s' c hc
    · rw [TraceM.bind_error h] at hc
      exact hx s c (h ▸ hc)

theorem traced_genuine (m : Machine) (d : Nat) (c : Call) :
    Genuine m Answer (m.traced d c) (m.traced d c) := by
  induction d generalizing c with
  | zero =>
    intro s c' hc
    rw [List.mem_singleton.mp hc]
    exact .inl rfl
  | succ d ih =>
    have hq := Genuine.sequential m
    have hr : Respects m m d d (Genuine m) :=
      ⟨⟨hq, fun _ => .lift _⟩, fun _ _ => .lift _, ⟨hq, rfl, fun _ => .lift _⟩⟩
    have hstep := hr.step ih (hq.forceWith ih (.lift _) m.links)
      (fun id => hq.forceOnceWith ih id (.lift _) fun _ => .lift _) c
    intro s c' hc
    rcases List.mem_append.mp hc with hc | hc
    · exact hstep s c' hc
    · rw [List.mem_singleton.mp hc]
      exact .inr ⟨d, rfl⟩

/-! ## Every stop has a call to blame -/

/-- How a call of each kind can stop on its own account: the evaluator by a text
it cannot write, a native in any way, and every call by its depth alone. -/
def Call.CanStop : Call → Stop → Prop
  | .native .., _ => True
  | .evaluate .., e | .arguments .., e | .deferred .., e => ∃ why : Unwritable, e = why.stop
  | .force _, e => e = .tooDeep
  | .closure .., e => e = .tooDeep

/-- The call stopped with `e` while every call inside it had returned. -/
structure Made.Stopped (c : Made) (e : Stop) (s : Store) : Prop where
  outcome : c.outcome = .error e s
  inner : ∀ c' ∈ c.inner, c'.Returned
  canStop : c.call.CanStop e

/-- Either all nested calls returned, and a stop is one of `L`, or the stop is that
of a nested call which stopped by itself. -/
def Blames (L : Stop → Prop) (α : Type) (x _y : TraceM α) : Prop :=
  ∀ s, ((∀ c ∈ (x s).2, c.Returned) ∧ ∀ e t, (x s).1 = .error e t → L e) ∨
    ∃ e t, (x s).1 = .error e t ∧ ∃ c ∈ (x s).2, c.Stopped e t

namespace Blames
variable {L : Stop → Prop}

theorem lift {α : Type} {x : EvalM α} {y : TraceM α} (h : ∀ s e t, x s = .error e t → L e) :
    Blames L α (liftM x) y :=
  fun s => .inl ⟨fun c hc => (by cases hc), h s⟩

theorem sequential : Sequential (Blames L) where
  pure a := fun s => .inl ⟨fun c hc => (by cases hc), fun e t h => (by cases h)⟩
  bind {_ _ x _ f _} hx hf := by
    intro s
    rcases x.cases s with ⟨a, s', l, h⟩ | ⟨e, s', l, h⟩
    · rw [TraceM.bind_ok h]
      rcases hx s with ⟨hret, _⟩ | ⟨e, t, he, _⟩
      · rw [h] at hret
        rcases hf a s' with ⟨hret', hL⟩ | ⟨e, t, he, c, hc, hst⟩
        · refine .inl ⟨fun c hc => ?_, hL⟩
          exact (List.mem_append.mp hc).elim (hret c) (hret' c)
        · exact .inr ⟨e, t, he, c, List.mem_append_right _ hc, hst⟩
      · rw [h] at he; cases he
    · rw [TraceM.bind_error h]
      rcases hx s with ⟨hret, hL⟩ | ⟨e', t, he, hc⟩
      · rw [h] at hret hL
        refine .inl ⟨hret, fun e' t he => ?_⟩
        cases he
        exact hL e s' rfl
      · rw [h] at he hc
        cases he
        exact .inr ⟨e, s', rfl, hc⟩

/-- Once a call is written down, its own stop is blamed on it. -/
theorem enclose {L' : Stop → Prop} {x y z : TraceM Answer} {call : Call}
    (hL : ∀ e, L e → call.CanStop e) (h : Blames L Answer x y) :
    Blames L' Answer (.enclose call x) z := by
  intro s
  have hlast : Made.mk call s (x s).1 (x s).2 ∈ (TraceM.enclose call x s).2 :=
    List.mem_append_right _ (List.mem_singleton.mpr rfl)
  rcases h s with ⟨hret, hloc⟩ | ⟨e, t, he, c, hc, hst⟩
  · cases hx : (x s).1 with
    | ok a s' =>
      refine .inl ⟨fun c hc => ?_, fun e t he => ?_⟩
      · rcases List.mem_append.mp hc with hc | hc
        · exact hret c hc
        · exact ⟨a, s', by rw [List.mem_singleton.mp hc]; exact hx⟩
      · exact absurd (hx.symm.trans he) (by simp)
    | error e t => exact .inr ⟨e, t, hx, _, hlast, hx, hret, hL e (hloc e t hx)⟩
  · exact .inr ⟨e, t, he, c, List.mem_append_left _ hc, hst⟩

end Blames

theorem render_error {d : Nat} {v : Value} {s t : Store} {e : Stop}
    (h : EvalM.render d v s = .error e t) : ∃ why : Unwritable, e = why.stop := by
  unfold EvalM.render at h
  split at h
  · cases h
  · next why _ => cases h; exact ⟨why, rfl⟩

theorem EvaluatorAction.error {m m' : Machine} {d d' : Nat} {α : Type} {x y : EvalM α}
    (h : EvaluatorAction m m' d d' α x y) {s t : Store} {e : Stop} (he : x s = .error e t) :
    ∃ why : Unwritable, e = why.stop := by
  cases h with
  | render v => exact render_error he
  | _ => cases he

theorem enter_ne_error (m : Machine) (c : Closure) (params : Value) (s t : Store) (e : Stop) :
    m.enter c params s ≠ .error e t := by
  unfold Machine.enter
  simp only [bind, EStateM.bind, EvalM.act]
  split <;> exact fun h => by cases h

/-- **A stop is always some call's own.** -/
theorem traced_blames (m : Machine) (L : Stop → Prop) (d : Nat) (c : Call) :
    Blames L Answer (m.traced d c) (m.traced d c) := by
  induction d generalizing L c with
  | zero =>
    refine .enclose (L := (· = .tooDeep)) (fun e he => ?_) (.lift fun s e t h => by cases h; rfl)
      (y := m.traced 0 c)
    cases c with
    | native => trivial
    | evaluate | arguments | deferred => exact ⟨.tooDeep, he⟩
    | force | closure => exact he
  | succ d ih =>
    have hs (L : Stop → Prop) : ∀ c, Blames L Answer (m.traced d c) (m.traced d c) := ih L
    have hr : EvaluatorRespects m m d d (Blames fun e => ∃ why : Unwritable, e = why.stop) :=
      ⟨Blames.sequential, fun h => .lift fun s e t he => h.error he⟩
    cases c with
    | evaluate e env => exact .enclose (fun _ h => h) (hr.evaluateWith (hs _) e env)
    | arguments args env => exact .enclose (fun _ h => h) (hr.argumentsWith (hs _) args env)
    | deferred args env => exact .enclose (fun _ h => h) (hr.deferredWith (hs _) args env)
    | force id =>
      refine .enclose (L := fun _ => False) (fun _ h => h.elim)
        (Blames.sequential.forceOnceWith (hs _) id (.lift ?_) fun a => .lift ?_)
      · intro s e t h; cases h
      · intro s e t h; cases h
    | closure c params =>
      have henter : Blames (fun _ => False) (EnvId × Bool) (liftM (m.enter c params))
          (liftM (m.enter c params)) :=
        .lift fun s e t h => (enter_ne_error m c params s t e h).elim
      exact .enclose (fun _ h => h.elim)
        (Blames.sequential.applyClosureWith (hs _) c params henter)
    | native p params env =>
      have hlift {α : Type} (x : EvalM α) : Blames (fun _ => True) α (liftM x) (liftM x) :=
        .lift fun _ _ _ _ => trivial
      have hr : NativeRespects m m d d (Blames fun _ => True) :=
        ⟨Blames.sequential, rfl, fun h => h.eq ▸ hlift _⟩
      have hf := Blames.sequential.forceWith (hs _) (hlift _) m.links
      exact .enclose (fun _ _ => trivial) (hr.applyNativeWith (hs _) hf p params env)

/-! ## Invariants of runs -/

/-- A computation keeps a relation between the store it starts in, its trace and
the store it leaves. -/
def Keeps (Φ : Store → List Made → Store → Prop) (α : Type) (x _y : TraceM α) : Prop :=
  ∀ s, Φ s (x s).2 (endStore (x s).1)

/-- A promise hands out what it holds. Otherwise its expression is evaluated, and if that
gives an answer it is stored. -/
theorem forceOnceWith_cases (self : Call → TraceM Answer) (id : PromiseId) (s : Store) :
    (∃ a, (s.promise id).memo = some a ∧ Machine.forceOnceWith self id s = (.ok a s, [])) ∨
      ((s.promise id).memo = none ∧ ∃ a t l,
        self (.evaluate (s.promise id).expression (s.promise id).env) s = (.ok a t, l) ∧
          Machine.forceOnceWith self id s = (.ok a (t.memoise id a), l)) ∨
      (s.promise id).memo = none ∧ ∃ e t l,
        self (.evaluate (s.promise id).expression (s.promise id).env) s = (.error e t, l) ∧
          Machine.forceOnceWith self id s = (.error e t, l) := by
  cases hmemo : (s.promise id).memo with
  | some a =>
    refine .inl ⟨a, rfl, ?_⟩
    unfold Machine.forceOnceWith
    rw [TraceM.read_bind, hmemo]
    rfl
  | none =>
    have hread : Machine.forceOnceWith self id s =
        (self (.evaluate (s.promise id).expression (s.promise id).env) >>= fun a =>
          liftM (EvalM.change (·.memoise id a)) >>= fun _ => pure a) s := by
      unfold Machine.forceOnceWith
      rw [TraceM.read_bind, hmemo]
    refine .inr ?_
    rcases (self (.evaluate (s.promise id).expression (s.promise id).env)).cases s with
      ⟨a, t, l, hrun⟩ | ⟨e, t, l, hrun⟩
    · refine .inl ⟨rfl, a, t, l, hrun, hread.trans ?_⟩
      rw [TraceM.bind_ok hrun, TraceM.change_bind, TraceM.pure_apply, List.append_nil]
    · exact .inr ⟨rfl, e, t, l, hrun, hread.trans (TraceM.bind_error hrun)⟩

/-- What makes a relation between stores an invariant of all runs: the ways in
which evaluation touches the store keep it, it goes along a trace, and each kind
of ended call keeps it. -/
structure TraceLaw (Φ : Store → List Made → Store → Prop) : Prop where
  touched {s t : Store} : Touched s t → Φ s [] t
  append {s t u : Store} {l l' : List Made} : Φ s l t → Φ t l' u → Φ s (l ++ l') u
  stopped {s t : Store} {l : List Made} (c : Call) (e : Stop) :
    Φ s l t → Φ s (l ++ [.mk c s (.error e t) l]) t
  returned {s t : Store} {l : List Made} (c : Call) (a : Answer) :
    (∀ id, c ≠ .force id) → Φ s l t → Φ s (l ++ [.mk c s (.ok a t) l]) t
  cached {s : Store} {id : PromiseId} {a : Answer} : (s.promise id).memo = some a →
    Φ s [.mk (.force id) s (.ok a s) []] s
  answered {s t : Store} {l : List Made} {id : PromiseId} (a : Answer) :
    (s.promise id).memo = none → Φ s l t →
    Φ s (l ++ [.mk (.force id) s (.ok a (t.memoise id a)) l]) (t.memoise id a)

namespace TraceLaw
variable {Φ : Store → List Made → Store → Prop}

theorem lift (h : TraceLaw Φ) {α : Type} {x : EvalM α} {y : TraceM α}
    (hx : ∀ s, Touched s (endStore (x s))) : Keeps Φ α (liftM x) y :=
  fun s => h.touched (hx s)

theorem sequential (h : TraceLaw Φ) : Sequential (Keeps Φ) where
  pure a := fun s => h.touched (.refl s)
  bind {_ _ x _ f _} hx hf := by
    intro s
    have hxs := hx s
    rcases x.cases s with ⟨a, s', l, hr⟩ | ⟨e, s', l, hr⟩
    · rw [TraceM.bind_ok hr]
      rw [hr] at hxs
      exact h.append hxs (hf a s')
    · rw [TraceM.bind_error hr]
      rwa [hr] at hxs

theorem respects (h : TraceLaw Φ) (m : Machine) (d : Nat) : Respects m m d d (Keeps Φ) where
  evaluator := ⟨h.sequential, fun ha => h.lift ha.touched⟩
  enter c params := h.lift (touched_enter m c params)
  native := ⟨h.sequential, rfl, fun ha => h.lift ha.touched⟩

theorem enclose (h : TraceLaw Φ) {x y : TraceM Answer} {c : Call} (hc : ∀ id, c ≠ .force id)
    (hx : Keeps Φ Answer x y) : Keeps Φ Answer (.enclose c x) y := by
  intro s
  have hxs := hx s
  unfold TraceM.enclose
  cases hr : (x s).1 with
  | ok a t =>
    rw [hr] at hxs
    exact h.returned c a hc hxs
  | error e t =>
    rw [hr] at hxs
    exact h.stopped c e hxs

/-- The case of a promise: a stored answer is handed out, and an expression that is
evaluated to its end has its answer stored. -/
theorem forceOnce (h : TraceLaw Φ) {self : Call → TraceM Answer} {y : TraceM Answer}
    (hs : ∀ c, Keeps Φ Answer (self c) (self c)) (id : PromiseId) :
    Keeps Φ Answer (.enclose (.force id) (Machine.forceOnceWith self id)) y := by
  intro s
  have hes := hs (.evaluate (s.promise id).expression (s.promise id).env) s
  rcases forceOnceWith_cases self id s with
    ⟨a, hm, hx⟩ | ⟨hm, a, t, l, hr, hx⟩ | ⟨-, e, t, l, hr, hx⟩
  · simp only [TraceM.enclose, hx]
    exact h.cached hm
  · rw [hr] at hes
    simp only [TraceM.enclose, hx]
    exact h.answered a hm hes
  · rw [hr] at hes
    simp only [TraceM.enclose, hx]
    exact h.stopped _ e hes

/-- **What every kind of call keeps, every run keeps.** -/
theorem traced (h : TraceLaw Φ) (m : Machine) (d : Nat) (c : Call) :
    Keeps Φ Answer (m.traced d c) (m.traced d c) := by
  induction d generalizing c with
  | zero => exact fun s => h.stopped c .tooDeep (h.touched (.refl s))
  | succ d ih =>
    cases c with
    | evaluate e env =>
      exact h.enclose (fun _ hc => by cases hc) ((h.respects m d).evaluator.evaluateWith ih e env)
    | arguments args env =>
      exact h.enclose (fun _ hc => by cases hc)
        ((h.respects m d).evaluator.argumentsWith ih args env)
    | deferred args env =>
      exact h.enclose (fun _ hc => by cases hc)
        ((h.respects m d).evaluator.deferredWith ih args env)
    | force id => exact h.forceOnce ih id
    | closure c params =>
      exact h.enclose (fun _ hc => by cases hc)
        (h.sequential.applyClosureWith ih c params ((h.respects m d).enter c params))
    | native p params env =>
      have hf := h.sequential.forceWith ih (h.lift fun s => .refl s) m.links
      exact h.enclose (fun _ hc => by cases hc)
        ((h.respects m d).native.applyNativeWith ih hf p params env)

end TraceLaw

end LispCore
