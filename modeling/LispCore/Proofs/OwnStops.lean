import LispCore.Proofs.BigStep
import LispCore.Proofs.Conduct

/-! # What stops a call on its own account

`traced_blames` says that a run which stopped was stopped by one of its calls, while all
calls inside that one had returned. Here is what such a call can have come to grief at.
An evaluation has failed to write a text, and the text is that of its own expression or of
the value of its head; a list of arguments has failed to write what stands at its end
(`Made.Quotes`). A native has raised a fault that it may raise, failed to write a text, or
followed promises without end (`Script.Obeys.ownStops`).

The relation behind both is `OwnStops`. It asks for a reason only if all nested calls
have returned, so nested calls satisfy it for any reasons at all (`OwnStops.traced`). -/
namespace LispCore

/-- If all nested calls have returned, a stop is one of `L`. -/
def OwnStops (L : Stop → Store → Prop) (α : Type) (x _y : TraceM α) : Prop :=
  ∀ s, (∀ c ∈ (x s).2, c.Returned) → ∀ e t, (x s).1 = .error e t → L e t

/-- A sequence stops in its first part or in its second. -/
theorem TraceM.bind_eq_error {α β : Type} {x : TraceM α} {f : α → TraceM β} {s t : Store}
    {e : Stop} {l : List Made} (h : (x >>= f) s = (.error e t, l)) :
    x s = (.error e t, l) ∨
      ∃ a u l₁ l₂, x s = (.ok a u, l₁) ∧ f a u = (.error e t, l₂) ∧ l = l₁ ++ l₂ := by
  rcases x.cases s with ⟨a, u, l₁, hx⟩ | ⟨e', u, l₁, hx⟩
  · rw [bind_ok hx] at h
    obtain ⟨hf, hl⟩ := Prod.mk.inj h
    exact .inr ⟨a, u, l₁, (f a u).2, hx, Prod.ext hf rfl, hl.symm⟩
  · rw [bind_error hx] at h
    cases h
    exact .inl hx

namespace OwnStops
variable {L : Stop → Store → Prop} {α : Type}

theorem reason {x : TraceM α} (h : OwnStops L α x x) {s t : Store} {e : Stop} {l : List Made}
    (hrun : x s = (.error e t, l)) (hret : ∀ c ∈ l, c.Returned) : L e t := by
  refine h s ?_ e t (by rw [hrun])
  rwa [hrun]

theorem mono {L' : Stop → Store → Prop} {x : TraceM α} (h : OwnStops L α x x)
    (hL : ∀ e t, L e t → L' e t) : OwnStops L' α x x :=
  fun s hret e t herror => hL e t (h s hret e t herror)

theorem lift {x : EvalM α} (h : ∀ s e t, x s = .error e t → L e t) :
    OwnStops L α (liftM x) (liftM x) :=
  fun s _ => h s

/-- Changing the store or looking at it stops nothing. -/
theorem act (f : Store → α × Store) : OwnStops L α (liftM (EvalM.act f)) (liftM (EvalM.act f)) := by
  refine lift fun s e t h => ?_
  cases h

theorem note (m : Machine) (source : Source) (severity : Severity) (text : String) :
    OwnStops L Unit (liftM (m.note source severity text))
      (liftM (m.note source severity text)) := by
  refine lift fun s e t h => ?_
  cases h

theorem sequential : Sequential (OwnStops L) where
  pure _ := by
    intro s _ e t h
    cases h
  bind {_ _ x _ f _} hx hf := by
    intro s hret e t herror
    rcases x.cases s with ⟨a, u, l, h⟩ | ⟨e', u, l, h⟩
    · rw [TraceM.bind_ok h] at hret herror
      exact hf a u (fun c hc => hret c (List.mem_append_right _ hc)) e t herror
    · rw [TraceM.bind_error h] at hret herror
      cases herror
      exact hx s (by rwa [h]) e t (by rw [h])

/-- A nested call that stopped has not returned. -/
theorem traced (m : Machine) (d : Nat) (c : Call) :
    OwnStops L Answer (m.traced d c) (m.traced d c) := by
  intro s hret e t herror
  obtain ⟨inner, htraced⟩ := traced_snd m d c s
  rw [htraced] at hret herror
  obtain ⟨a, u, hok⟩ := hret (.mk c s (m.perform d c s) inner) (by simp)
  exact absurd (hok.symm.trans herror) (by simp)

end OwnStops

/-! ## Evaluations -/

/-- The text of a value in a set could not be written, and that is the reason of the stop. -/
def AtText (Q : Value → Prop) (depth : Nat) (e : Stop) (s : Store) : Prop :=
  ∃ v, Q v ∧ ∃ why : Unwritable, s.render depth v = .error why ∧ e = why.stop

namespace OwnStops
variable {Q : Value → Prop} (m : Machine) {d : Nat}

theorem render {v : Value} (h : Q v) :
    OwnStops (AtText Q d) String (liftM (EvalM.render d v)) (liftM (EvalM.render d v)) := by
  refine lift fun s e t herror => ?_
  unfold EvalM.render at herror
  split at herror
  · cases herror
  · next why hwhy =>
    cases herror
    exact ⟨v, h, why, hwhy, rfl⟩

theorem improperArguments {tail : Value} (h : Q tail) :
    OwnStops (AtText Q d) Answer (m.improperArguments d tail) (m.improperArguments d tail) := by
  refine sequential.bind (render h) fun text => ?_
  exact sequential.bind (note m _ _ _) fun _ => sequential.pure _

theorem argumentsWith {args : Value} (env : EnvId) (h : args.tag ≠ .pair → Q args) :
    OwnStops (AtText Q d) Answer (m.argumentsWith d (m.traced d) args env)
      (m.argumentsWith d (m.traced d) args env) := by
  unfold Machine.argumentsWith
  cases args with
  | nil => exact sequential.pure _
  | pair _ first rest =>
    refine sequential.bind (traced m d _) fun head => ?_
    split
    · refine sequential.bind (traced m d _) fun tail => ?_
      split
      · exact sequential.bind (act _) fun _ => sequential.pure _
      · exact sequential.pure _
    · exact sequential.pure _
  | _ => exact improperArguments m (h nofun)

theorem deferredWith {args : Value} (env : EnvId) (h : args.tag ≠ .pair → Q args) :
    OwnStops (AtText Q d) Answer (m.deferredWith d (m.traced d) args env)
      (m.deferredWith d (m.traced d) args env) := by
  unfold Machine.deferredWith
  cases args with
  | nil => exact sequential.pure _
  | pair _ first rest =>
    refine sequential.bind (traced m d _) fun tail => ?_
    split
    · refine sequential.bind (act _) fun id => ?_
      exact sequential.bind (act _) fun _ => sequential.pure _
    · exact sequential.pure _
  | _ => exact improperArguments m (h nofun)

theorem applyWith {e callee : Value} (args : Value) (env : EnvId) (he : Q e) (hc : Q callee) :
    OwnStops (AtText Q d) Answer (m.applyWith d (m.traced d) e callee args env)
      (m.applyWith d (m.traced d) e callee args env) := by
  unfold Machine.applyWith
  cases callee with
  | native p =>
    dsimp only
    split
    · exact traced m d _
    · refine sequential.bind (traced m d _) fun params => ?_
      split
      · exact traced m d _
      · exact sequential.pure _
  | closure =>
    refine sequential.bind (traced m d _) fun params => ?_
    split
    · exact traced m d _
    · exact sequential.pure _
  | _ =>
    refine sequential.bind (render hc) fun shown => ?_
    refine sequential.bind (render he) fun whole => ?_
    exact sequential.bind (note m _ _ _) fun _ => sequential.pure _

end OwnStops

/-- The values that a call quotes when it fails: an evaluation its expression and the value of
the head, a list of arguments what it is in place of a pair. -/
inductive Made.Quotes (c : Made) : Value → Prop
  | whole {e : Value} {env : EnvId} : c.call = .evaluate e env → c.Quotes e
  | tail {args : Value} {env : EnvId} :
      c.call = .arguments args env ∨ c.call = .deferred args env → args.tag ≠ .pair →
      c.Quotes args
  | head {mark : Mark} {head args v : Value} {env : EnvId} {b : Made} {t : Store} :
      c.call = .evaluate (.pair mark head args) env → b ∈ c.inner →
      b.call = .evaluate head env → b.outcome = .ok (.success v) t → c.Quotes v

/-- If the calls inside an evaluation return, it can stop at a text that it quotes. -/
theorem evaluateWith_atText {m : Machine} {d : Nat} {e : Value} {env : EnvId} {s t : Store}
    {stop : Stop} {l : List Made}
    (hrun : m.evaluateWith d (m.traced d) e env s = (.error stop t, l))
    (hret : ∀ b ∈ l, b.Returned) :
    AtText (Made.mk (.evaluate e env) s (.error stop t) l).Quotes d stop t := by
  have hq {L : Stop → Store → Prop} := OwnStops.sequential (L := L)
  cases e with
  | pair mark head args =>
    rcases TraceM.bind_eq_error (x := m.traced d (.evaluate head env)) hrun with
      hhead | ⟨a, u, l₁, l₂, hhead, hrest, rfl⟩
    · exact (OwnStops.traced m d _).reason hhead hret
    · obtain ⟨inner, htraced⟩ := traced_snd m d (.evaluate head env) s
      rw [hhead] at htraced
      obtain ⟨hperform, rfl⟩ := Prod.mk.inj htraced
      have hrest' : ∀ b ∈ l₂, b.Returned := fun b hb => hret b (List.mem_append_right _ hb)
      have hwhole : (Made.mk (.evaluate (.pair mark head args) env) s (.error stop t)
          (inner ++ [.mk (.evaluate head env) s (m.perform d (.evaluate head env) s) inner] ++
            l₂)).Quotes (.pair mark head args) := .whole rfl
      split at hrest
      · next hok =>
        refine (OwnStops.applyWith m args env hwhole ?_).reason hrest hrest'
        refine .head rfl
          (b := .mk (.evaluate head env) s (m.perform d (.evaluate head env) s) inner)
          (t := u) (by simp [Made.inner]) rfl ?_
        obtain ⟨v, ok⟩ := a
        obtain rfl : ok = true := hok
        exact hperform.symm
      · refine OwnStops.reason ?_ hrest hrest'
        exact hq.bind (OwnStops.render hwhole) fun whole =>
          hq.bind (OwnStops.note m _ _ _) fun _ => hq.pure _
  | symbol name =>
    refine OwnStops.reason ?_ hrun hret
    refine hq.bind (OwnStops.act _) fun found => ?_
    cases found with
    | some v => exact hq.pure _
    | none => exact hq.bind (OwnStops.note m _ _ _) fun _ => hq.pure _
  | promise id => exact (OwnStops.traced m d (.force id)).reason hrun hret
  | _ => cases hrun

/-- If the calls inside a call return, and it runs no native, it can stop at a text that it
quotes. -/
theorem step_atText {m : Machine} {d : Nat} {c : Call} {s t : Store} {stop : Stop} {l : List Made}
    (hc : ∀ p params env, c ≠ .native p params env)
    (hrun : m.step d (m.traced d) c s = (.error stop t, l)) (hret : ∀ b ∈ l, b.Returned) :
    AtText (Made.mk c s (.error stop t) l).Quotes d stop t := by
  cases c with
  | evaluate e env => exact evaluateWith_atText hrun hret
  | arguments args env =>
    exact (OwnStops.argumentsWith m env fun h => .tail (.inl rfl) h).reason hrun hret
  | deferred args env =>
    exact (OwnStops.deferredWith m env fun h => .tail (.inr rfl) h).reason hrun hret
  | force id =>
    refine OwnStops.reason ?_ hrun hret
    exact OwnStops.sequential.forceOnceWith (OwnStops.traced m d) id (.act _) fun a => .act _
  | closure c params =>
    refine OwnStops.reason ?_ hrun hret
    exact OwnStops.sequential.applyClosureWith (OwnStops.traced m d) c params
      (.lift fun s e t h => (enter_ne_error m c params s t e h).elim)
  | native p params env => exact absurd rfl (hc p params env)

/-- A call that stops on its own account, and runs no native, has no level left or has failed
to write the text of a value that it quotes. -/
theorem Made.IsStep.atText {m : Machine} {c : Made} (h : c.IsStep m)
    (hcall : ∀ p params env, c.call ≠ .native p params env) (hret : ∀ b ∈ c.inner, b.Returned)
    {stop : Stop} {t : Store} (hstop : c.outcome = .error stop t) :
    stop = .tooDeep ∨ ∃ d, AtText c.Quotes d stop t := by
  rcases h with hnone | ⟨d, hstep⟩
  · rw [hnone] at hstop
    cases hstop
    exact .inl rfl
  · obtain ⟨call, start, outcome, inner⟩ := c
    obtain rfl : outcome = .error stop t := hstop
    exact .inr ⟨d, step_atText hcall hstep hret⟩

/-! ## Natives -/

/-- How a native that keeps to a rule of conduct can stop on its own account. -/
def Conduct.Stops (C : Conduct) (e : Stop) : Prop :=
  (∃ fault text, C.raises fault ∧ e = .raised fault text) ∨
    (∃ why : Unwritable, e = why.stop) ∨ e = .unfinished

section Natives
variable {C : Conduct} (m : Machine) (d : Nat)

theorem OwnStops.raise {α : Type} {fault : Fault} (h : C.raises fault) :
    OwnStops (fun e _ => C.Stops e) α (liftM (EvalM.raise d fault : EvalM α))
      (liftM (EvalM.raise d fault : EvalM α)) := by
  refine .lift fun s e t herror => ?_
  unfold EvalM.raise at herror
  split at herror
  · next text _ =>
    cases herror
    exact .inl ⟨fault, text, h, rfl⟩
  · next why _ =>
    cases herror
    exact .inr (.inl ⟨why, rfl⟩)

theorem OwnStops.serveWith (r : Request) :
    OwnStops (fun e _ => C.Stops e) r.Reply (m.serveWith d (m.traced d) r)
      (m.serveWith d (m.traced d) r) := by
  cases r with
  | evaluate | applyClosure | applyNative => exact traced m d _
  | force v =>
    refine sequential.forceWith (traced m d) (lift fun s e t h => ?_) m.links v
    cases h
    exact .inr (.inr rfl)
  | render v => exact lift fun s e t h => .inr (.inl (render_error h))
  | _ => exact act _

/-- A script that obeys stops as it may, or as anything stops that needs a text or follows
promises. -/
theorem Script.Obeys.ownStops (hears : ∀ r reply, C.hears r reply) {α : Type} {E : α → Prop}
    {x : Script α} (hx : x.Obeys C E) :
    OwnStops (fun e _ => C.Stops e) α (m.runWith d (m.traced d) x)
      (m.runWith d (m.traced d) x) := by
  induction x with
  | done a => exact OwnStops.sequential.pure a
  | raise fault => exact .raise d hx
  | ask r next ih =>
    exact OwnStops.sequential.bind (.serveWith m d r) fun reply =>
      ih reply (hx.2 reply (hears r reply))

end Natives

/-- A native that stops on its own account, and had a level left, stops as its rule of
conduct says. -/
theorem Made.IsStep.conduct {m : Machine} {c : Made} (h : c.IsStep m) {p : Native} {params : Value}
    {env : EnvId} (hcall : c.call = .native p params env) (hret : ∀ b ∈ c.inner, b.Returned)
    {stop : Stop} {t : Store} (hstop : c.outcome = .error stop t) {C : Conduct}
    (hears : ∀ r reply, C.hears r reply) {E : Answer → Prop}
    (hobeys : (m.library p.routine params env).Obeys C E) : C.Stops stop := by
  rcases h with hnone | ⟨d, hstep⟩
  · rw [hnone] at hstop
    cases hstop
    exact .inr (.inl ⟨.tooDeep, rfl⟩)
  · obtain ⟨call, start, outcome, inner⟩ := c
    obtain rfl : call = .native p params env := hcall
    obtain rfl : outcome = .error stop t := hstop
    have hq {L : Stop → Store → Prop} := OwnStops.sequential (L := L)
    refine OwnStops.reason (L := fun e _ => C.Stops e) ?_ hstep hret
    refine hq.bind (hobeys.ownStops m d hears) fun a => ?_
    refine hq.bind (.lift fun s e t herror => ?_) fun _ => hq.pure a
    unfold Machine.reportFailure at herror
    split at herror <;> cases herror

end LispCore
