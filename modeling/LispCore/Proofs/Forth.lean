import LispCore.Proofs.Alike
import LispCore.Proofs.ByName

/-! # A run and a family of runs

A simulation between two evaluators from stores that are alike. The first side is one run
within fixed limits, the second a family of runs within all limits: when the first
returns, the second comes to a result that is alike once its limits are large enough, and
the stores are alike again (`Forth`). The sides may keep invariants of their own and
force promises in different ways; what one call needs besides is only how one promise is
forced (`Sides.call`).

A text may be writable on the first side only. Whether this can happen depends on the
invariants, and where it can, stopping at the text is conceded to the second side. -/
namespace LispCore

open Store (Grown Enlarged)

/-- Invariants of the stores on two sides: what they survive, and what they say of marks
and texts. Where it is conceded, a value may have a text on the first side only. -/
structure Sides (b : Nat) (conceded : Prop) (A A' : Store → Prop) : Prop where
  left {s t : Store} : s.Enlarged t → A s → A t
  right {s t : Store} : s.Enlarged t → A' s → A' t
  marks {s : Store} : A s → b ≤ s.marks
  marks' {s : Store} : A' s → b ≤ s.marks
  text {s s' : Store} {v v' : Value} {d : Nat} {text : String} : A s → A' s' →
    Paired (alike b s s') v v' → s.render d v = .ok text →
    (∃ text', Shows s' v' text') ∨ conceded

/-- The stores have grown and kept their invariants. -/
structure Onward (A A' : Store → Prop) (s s' t t' : Store) : Prop where
  grown : s.Grown t
  grown' : s'.Grown t'
  left : A t
  right : A' t'

/-- When `x` returns, the family `y` comes to a result for which `P` holds, from every
store that is alike. Where it is conceded, it may stop at a text instead. -/
def Forth (b : Nat) (conceded : Prop) (A A' : Store → Prop) {α β : Type} (w : Pairing)
    (P : Pairing → α → β → Prop) (x : EvalM α) (y : Limits → EvalM β) : Prop :=
  ∀ s s', w.Le (alike b s s') → A s → A' s' → ∀ a t, x s = .ok a t →
    (∃ c t', Reaches y s' c t' ∧ Onward A A' s s' t t' ∧
      ∃ w', w.Le w' ∧ w'.Le (alike b t t') ∧ P w' a c) ∨ conceded ∧ Halts y s'

section Law
variable {b : Nat} {conceded : Prop} {A A' : Store → Prop} {α β : Type} {w : Pairing}
  {P : Pairing → α → β → Prop} {x : EvalM α} {y z : Limits → EvalM β}

theorem Onward.refl {s s' : Store} (h : A s) (h' : A' s') : Onward A A' s s' s s' :=
  ⟨.refl s, .refl s', h, h'⟩

theorem Onward.trans {s s' t t' u u' : Store} (h : Onward A A' s s' t t')
    (h' : Onward A A' t t' u u') : Onward A A' s s' u u' :=
  ⟨h.grown.trans h'.grown, h.grown'.trans h'.grown', h'.left, h'.right⟩

/-- Both sides return at once, in stores that are larger at most. -/
theorem Sides.forth_of_ok (S : Sides b conceded A A')
    (h : ∀ s s', w.Le (alike b s s') → A s → A' s' → ∃ a t c t', x s = .ok a t ∧
      (∀ i, y i s' = .ok c t') ∧ s.Enlarged t ∧ s'.Enlarged t' ∧ P (alike b t t') a c) :
    Forth b conceded A A' w P x y := by
  intro s s' hw hA hA' a t hx
  obtain ⟨a', u, c, u', hx', hy, hs, hs', hP⟩ := h s s' hw hA hA'
  rw [hx] at hx'
  cases hx'
  refine .inl ⟨c, u', .of_all hy, ⟨hs.toGrown, hs'.toGrown, S.left hs hA, S.right hs' hA'⟩, ?_⟩
  exact ⟨_, hw.trans (alike_mono hs.toGrown hs'.toGrown), .refl _, hP⟩

protected theorem Forth.pure {a : α} {c : β} (h : P w a c) :
    Forth b conceded A A' w P (pure a) fun _ => pure c := by
  rintro s s' hw hA hA' _ _ ⟨⟩
  exact .inl ⟨c, s', .of_all fun _ => rfl, .refl hA hA', w, .refl _, hw, h⟩

protected theorem Forth.bind {α' β' : Type} {P' : Pairing → α' → β' → Prop} {f : α → EvalM α'}
    {g : Limits → β → EvalM β'} (h : Forth b conceded A A' w P x y)
    (hf : ∀ w' a c, w.Le w' → P w' a c → Forth b conceded A A' w' P' (f a) fun i => g i c) :
    Forth b conceded A A' w P' (x >>= f) fun i => y i >>= g i := by
  intro s s' hw hA hA' a u hxf
  cases hx : x s with
  | error e t =>
    rw [EvalM.bind_error hx] at hxf
    cases hxf
  | ok a₁ t =>
    rw [EvalM.bind_ok hx] at hxf
    rcases h s s' hw hA hA' a₁ t hx with ⟨c₁, t', hy, ho, w₁, hw₁, hle, hP⟩ | ⟨hc, hy⟩
    · rcases hf w₁ a₁ c₁ hw₁ hP t t' hle ho.left ho.right a u hxf with
        ⟨c, u', hg, ho', w₂, hw₂, hle', hP'⟩ | ⟨hc, hg⟩
      · exact .inl ⟨c, u', hy.bind hg, ho.trans ho', w₂, hw₁.trans hw₂, hle', hP'⟩
      · exact .inr ⟨hc, hy.bind_halts hg⟩
    · exact .inr ⟨hc, hy.bind⟩

/-- The second side may be given other limits, if these become large enough too. -/
theorem Forth.reindex (h : Forth b conceded A A' w P x y)
    (hz : ∀ Q : EvalM β → Prop, (Eventually fun d n k => Q (y ⟨d, n, k⟩)) →
      Eventually fun d n k => Q (z ⟨d, n, k⟩)) :
    Forth b conceded A A' w P x z := by
  intro s s' hw hA hA' a t hx
  rcases h s s' hw hA hA' a t hx with ⟨c, t', hy, hrest⟩ | ⟨hc, hy⟩
  · exact .inl ⟨c, t', hz (fun r => r s' = .ok c t') hy, hrest⟩
  · exact .inr ⟨hc, hz (fun r => ∃ (why : Unwritable) (u : Store), r s' = .error why.stop u) hy⟩

/-! ## Store actions -/

/-- Nothing is said about the texts, which may differ. -/
theorem Sides.render (S : Sides b conceded A A') {v v' : Value} (h : Paired w v v') (d : Nat)
    {P : Pairing → String → String → Prop} (hP : ∀ w text text', P w text text') :
    Forth b conceded A A' w P (EvalM.render d v) fun i => EvalM.render i.links v' := by
  intro s s' hw hA hA' text t hx
  unfold EvalM.render at hx
  cases hr : s.render d v with
  | error why =>
    rw [hr] at hx
    cases hx
  | ok shown =>
    rw [hr] at hx
    cases hx
    by_cases hshow : ∃ text', Shows s' v' text'
    · obtain ⟨text', hshow⟩ := hshow
      have hy : Eventually fun _ n _ => EvalM.render n v' s' = .ok text' s' := by
        obtain ⟨bound, hb⟩ := hshow.eventually
        exact ⟨bound, fun _ n k _ hn hk => hb n n k hn hn hk⟩
      exact .inl ⟨text', s', hy, .refl hA hA', w, .refl _, hw, hP _ _ _⟩
    · have hc := (S.text hA hA' (h.mono hw) hr).resolve_left hshow
      refine .inr ⟨hc, .of_all fun _ n _ => ?_⟩
      show ∃ (why : Unwritable) (u : Store), EvalM.render n v' s' = .error why.stop u
      unfold EvalM.render
      cases hr' : s'.render n v' with
      | ok text' => exact absurd ⟨text', n, hr'⟩ hshow
      | error why => exact ⟨why, s', rfl⟩

theorem Sides.note (S : Sides b conceded A A') (m : Machine) (source : Source)
    (severity : Severity) (text text' : String) :
    Forth b conceded A A' w (fun _ _ _ => True) (m.note source severity text)
      fun i => (m.withLinks i.links).note source severity text' :=
  S.forth_of_ok fun s s' _ _ _ =>
    ⟨_, _, _, _, rfl, fun _ => rfl, .note s _ _, .note s' _ _, trivial⟩

theorem Sides.newMark (S : Sides b conceded A A') :
    Forth b conceded A A' w (fun w i j => w.mark i j) (EvalM.act Store.newMark)
      fun _ => EvalM.act Store.newMark :=
  S.forth_of_ok fun s s' _ hA hA' =>
    ⟨_, _, _, _, rfl, fun _ => rfl, .newMark s, .newMark s', .inr ⟨S.marks hA, S.marks' hA'⟩⟩

theorem Sides.newPair (S : Sides b conceded A A') {v v' r r' : Value} (hv : Paired w v v')
    (hr : Paired w r r') :
    Forth b conceded A A' w Paired (EvalM.act (·.newPair v r))
      fun _ => EvalM.act (·.newPair v' r') := by
  refine S.forth_of_ok fun s s' hw hA hA' => ?_
  refine ⟨_, _, _, _, rfl, fun _ => rfl, .newMark s, .newMark s', ?_⟩
  have hle : w.Le (alike b s.newMark.2 s'.newMark.2) :=
    hw.trans (alike_mono (Enlarged.newMark s).toGrown (Enlarged.newMark s').toGrown)
  exact .pair (.inr ⟨S.marks hA, S.marks' hA'⟩) (hv.mono hle) (hr.mono hle)

theorem Sides.lookup (S : Sides b conceded A A') {env env' : EnvId} (h : w.env env env')
    (name : String) :
    Forth b conceded A A' w (fun w => Option.Rel (Paired w)) (EvalM.read (·.lookup env name))
      fun _ => EvalM.read (·.lookup env' name) :=
  S.forth_of_ok fun s s' hw _ _ =>
    ⟨_, _, _, _, rfl, fun _ => rfl, .refl s, .refl s', alike_lookup (hw.env _ _ h) name⟩

theorem Sides.newPromise (S : Sides b conceded A A') {e e' : Value} {env env' : EnvId}
    (he : Paired w e e') (h : w.env env env') :
    Forth b conceded A A' w (fun w id id' => Paired w (.promise id) (.promise id'))
      (EvalM.act (·.newPromise e env)) fun _ => EvalM.act (·.newPromise e' env') :=
  S.forth_of_ok fun s s' hw _ _ =>
    ⟨_, _, _, _, rfl, fun _ => rfl, .newPromise s e env, .newPromise s' e' env',
      .promise (alike_newPromise (he.mono hw) (hw.env _ _ h))⟩

theorem Sides.newChild (S : Sides b conceded A A') {env env' : EnvId} {c c' : Bindings Value}
    (h : w.env env env') (hc : c.Rel (Paired w) c') :
    Forth b conceded A A' w (fun w e e' => w.env e e') (EvalM.act (·.newChild env c))
      fun _ => EvalM.act (·.newChild env' c') :=
  S.forth_of_ok fun s s' hw _ _ =>
    ⟨_, _, _, _, rfl, fun _ => rfl, .newEnvironment s _ c, .newEnvironment s' _ c',
      alike_newChild (hw.env _ _ h) (hc.mono fun _ _ hv => hv.mono hw)⟩

theorem Sides.enter (S : Sides b conceded A A') (m : Machine) {c c' : Closure}
    {params params' : Value} (hc : Paired w c.toValue c'.toValue) (hp : Paired w params params') :
    Forth b conceded A A' w (fun w r r' => w.env r.1 r'.1 ∧ r.2 = r'.2) (m.enter c params)
      fun i => (m.withLinks i.links).enter c' params' := by
  obtain ⟨mark, names, body, home, isLazy⟩ := c
  obtain ⟨mark', names', body', home', isLazy'⟩ := c'
  cases hc with
  | closure _ _ hmark hbody hhome =>
    obtain ⟨hframe, hexact⟩ := matchParams_corresponds names hp Bindings.Rel.empty
    refine Forth.bind (S.newChild hhome hframe) fun w' env env' hle henv => ?_
    show Forth b conceded A A' w' _ _ fun i => if m.strictArity && !_ then _ else _
    rw [← hexact]
    split
    · exact Forth.bind (S.note m _ _ _ _) fun w'' _ _ hle' _ => Forth.pure ⟨hle'.env _ _ henv, rfl⟩
    · exact Forth.pure ⟨henv, rfl⟩

theorem Sides.report (S : Sides b conceded A A') (m : Machine) {p p' : Native} {a a' : Answer}
    (ha : a.ok = a'.ok) :
    Forth b conceded A A' w (fun _ _ _ => True) (m.reportFailure p a)
      fun i => (m.withLinks i.links).reportFailure p' a' := by
  unfold Machine.reportFailure
  rw [← ha]
  split
  · exact Forth.pure trivial
  · exact S.note m _ _ _ _

theorem Sides.request (S : Sides b conceded A A') (m : Machine) {r r' : Request}
    {Q : Likeness.uniform.World → r.Reply → r'.Reply → Prop} {self : Call → EvalM Answer}
    {self' : Limits → Call → EvalM Answer} (d : Nat) (hr : r.Plain)
    (ha : Likeness.uniform.StoreAsked w r r' Q) :
    Forth b conceded A A' w Q (m.serveWith d self r)
      fun i => (m.withLinks i.links).serveWith i.links (self' i) r' := by
  cases ha with
  | chain h =>
    exact S.forth_of_ok fun s s' hw _ _ =>
      ⟨_, _, _, _, rfl, fun _ => rfl, .refl s, .refl s', alike_chain (hw.env _ _ h)⟩
  | lookup name h => exact S.lookup h name
  | newChild h => exact S.newChild h Bindings.Rel.empty
  | newMapping =>
    exact S.forth_of_ok fun s s' _ _ _ =>
      ⟨_, _, _, _, rfl, fun _ => rfl, .newMapping s ∅, .newMapping s' ∅,
        .mapping (alike_newMapping Bindings.Rel.empty)⟩
  | read name h =>
    cases h with
    | mapping hid =>
      exact S.forth_of_ok fun s s' hw _ _ =>
        ⟨_, _, _, _, rfl, fun _ => rfl, .refl s, .refl s',
          (alike_mapping (hw.mapping _ _ hid)).find? name⟩
  | newPromise he h => exact S.newPromise he h
  | newMark => exact S.newMark
  | @emit v v' _ =>
    exact S.forth_of_ok fun s s' _ _ _ =>
      ⟨_, _, _, _, rfl, fun _ => rfl, .emit s v, .emit s' v', trivial⟩
  | bind | write | effects | render => exact hr.elim

/-- Everything but forcing a promise. -/
theorem Sides.sideBySide (S : Sides b conceded A A') {m : Machine} (hl : m.library.Uniform)
    (n : Nat) :
    SideBySide Likeness.uniform (m.withLinks n) (fun i : Limits => m.withLinks i.links) n
      (fun i => i.links) (Forth b conceded A A') where
  pure := Forth.pure
  bind := Forth.bind
  render h := S.render h n fun _ _ _ => nofun
  note source severity _ _ _ := S.note m source severity _ _
  lookup name h := S.lookup h name
  newPair hv hr := S.newPair hv hr
  newPromise he h := S.newPromise he h
  enter hc hp := S.enter m hc hp
  report _ ha := S.report m ha.ok
  raise _ := by
    intro s s' _ _ _ a t hx
    unfold EvalM.raise at hx
    split at hx <;> cases hx
  request hr ha := S.request (m.withLinks n) n hr ha
  library _ := rfl
  conduct hn hp he := by
    cases hn with
    | native routine name isLazy _ => exact hl routine _ _ _ _ _ hp he

/-! ## Chains of promises and calls -/

section Calls
variable {m : Machine} {self : Call → EvalM Answer} {self' : Nat → Nat → Call → EvalM Answer}

theorem forceWith_of_tag {v : Value} (h : v.tag ≠ .promise) (links : Nat) :
    Machine.forceWith self links v = pure (.success v) := by
  cases v with
  | promise => exact absurd rfl h
  | _ => cases links <;> rfl

/-- What is no promise is its own chain. -/
theorem Forth.resolved {v v' : Value} (hv : Paired w v v') (h : v.tag ≠ .promise) (n : Nat) :
    Forth b conceded A A' w Likeness.uniform.Answers (Machine.forceWith self n v)
      fun i => Machine.forceWith (self' i.depth i.links) i.chain v' := by
  have h' : v'.tag ≠ .promise := hv.tag_eq ▸ h
  simp only [forceWith_of_tag h, forceWith_of_tag h']
  exact Forth.pure (.success hv)

/-- Following a chain. The second side follows as many links as are needed. -/
theorem Forth.forceWith
    (hs : ∀ w c c', Likeness.uniform.Calls w c c' →
      Forth b conceded A A' w Likeness.uniform.Answers (self c) fun i => self' i.depth i.links c')
    (n : Nat) {v v' : Value} (hv : Paired w v v') :
    Forth b conceded A A' w Likeness.uniform.Answers (Machine.forceWith self n v)
      fun i => Machine.forceWith (self' i.depth i.links) i.chain v' := by
  induction n generalizing w v v' with
  | zero =>
    by_cases hp : v.tag = .promise
    · cases hv with
      | promise hid => exact fun s s' _ _ _ a t hx => nomatch hx
      | _ => cases hp
    · exact .resolved hv hp 0
  | succ n ih =>
    by_cases hp : v.tag = .promise
    · cases hv with
      | @promise id id' hid =>
        -- one link, and then the rest of the chain from what it gives
        have hlink : Forth b conceded A A' w Likeness.uniform.Answers
            (self (.force id) >>= fun a =>
              if a.ok then Machine.forceWith self n a.value else pure a)
            fun i => self' i.depth i.links (.force id') >>= fun a =>
              if a.ok then Machine.forceWith (self' i.depth i.links) i.chain a.value
              else pure a := by
          refine (hs w _ _ (.force (.promise hid))).bind fun w' a a' _ ha => ?_
          rw [← ha.ok]
          split
          · exact ih ha.value
          · exact Forth.pure ha
        exact hlink.reindex fun Q hQ => hQ.longer fun d n k h => h
      | _ => cases hp
    · exact .resolved hv hp (n + 1)

/-- A chain that is followed with all links of the machine. -/
theorem Forth.forceAll (self' : Nat → Nat → Call → EvalM Answer)
    (hs : ∀ w c c', Likeness.uniform.Calls w c c' →
      Forth b conceded A A' w Likeness.uniform.Answers (self c) fun i => self' i.depth i.links c')
    (n : Nat) {v v' : Value} (hv : Paired w v v') :
    Forth b conceded A A' w Likeness.uniform.Answers (Machine.forceWith self n v)
      fun i => Machine.forceWith (self' i.depth i.links) i.links v' :=
  (Forth.forceWith hs n hv).reindex fun _ hQ => hQ.ofMachine

end Calls

open Machine (Forcing)

/-- **One call from stores that are alike.** Two evaluators differ in how they force one
promise. If this goes forth from what calls one level deeper do, all calls go forth. -/
theorem Sides.call (S : Sides b conceded A A') {m : Machine} (hl : m.library.Uniform)
    {force force' : Forcing} (n : Nat)
    (hforce : ∀ d, (∀ w c c', Likeness.uniform.Calls w c c' →
        Forth b conceded A A' w Likeness.uniform.Answers (m.callWithin force ⟨d, n, 0⟩ c)
          fun i => m.callWithin force' i c') →
      ∀ w id id', w.promise id id' →
        Forth b conceded A A' w Likeness.uniform.Answers (force (m.callWithin force ⟨d, n, 0⟩) id)
          fun i => force' (m.callWithin force' i) id')
    (d : Nat) {w : Pairing} {c c' : Call} (hc : Likeness.uniform.Calls w c c') :
    Forth b conceded A A' w Likeness.uniform.Answers (m.callWithin force ⟨d, n, 0⟩ c)
      fun i => m.callWithin force' i c' := by
  induction d generalizing w c c' with
  | zero => exact fun s s' _ _ _ a t hx => nomatch hx
  | succ d ih =>
    have hself : ∀ w c c', Likeness.uniform.Calls w c c' →
        Forth b conceded A A' w Likeness.uniform.Answers (m.callWithin force ⟨d, n, 0⟩ c)
          fun i => m.callWithin force' i c' := fun w c c' hc => ih hc
    have hchain (w : Pairing) (v v' : Value) (hv : Paired w v v') :
        Forth b conceded A A' w Likeness.uniform.Answers
          (Machine.forceWith (m.callWithin force ⟨d, n, 0⟩) n v)
          fun i => Machine.forceWith (m.callWithin force' i) i.links v' :=
      Forth.forceAll (fun d n => m.callWithin force' ⟨d, n, 0⟩) hself n hv
    have hpromise (w : Pairing) (id id' : PromiseId)
        (h : Paired w (.promise id) (.promise id')) :
        Forth b conceded A A' w Likeness.uniform.Answers (force (m.callWithin force ⟨d, n, 0⟩) id)
          fun i => force' (m.callWithin force' i) id' := by
      cases h with
      | promise hid => exact hforce d hself w id id' hid
    have hstep := (S.sideBySide hl n).stepBy hself hchain hpromise hc
    exact hstep.reindex fun Q hQ => hQ.deeper fun d n k h => h

/-- The evaluations of an interpreter, from calls that go forth. -/
theorem Forth.forcedWith {m : Machine} {force force' : Forcing} {d n : Nat}
    (hs : ∀ w c c', Likeness.uniform.Calls w c c' →
      Forth b conceded A A' w Likeness.uniform.Answers (m.callWithin force ⟨d, n, 0⟩ c)
        fun i => m.callWithin force' i c')
    {w : Pairing} {e e' : Value} {env env' : EnvId} (he : Paired w e e') (henv : w.env env env') :
    Forth b conceded A A' w Likeness.uniform.Answers (m.evaluateWithin force ⟨d, n, 0⟩ e env)
      fun i => m.evaluateWithin force' i e' env' := by
  refine (hs w _ _ (.evaluate he henv)).bind fun w' a a' _ ha => ?_
  rw [← ha.ok]
  split
  · exact Forth.forceAll (fun d n => m.callWithin force' ⟨d, n, 0⟩) hs n ha.value
  · exact Forth.pure ha

end Law

end LispCore
