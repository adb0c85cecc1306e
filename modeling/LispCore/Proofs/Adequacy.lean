import LispCore.Proofs.BigStep
import LispCore.Proofs.Session

/-! # The evaluator computes the language

Every derivation is found by the evaluator once its limits are large enough, so
an answer is given within some limits exactly when the rules derive it with the
texts that rendering gives (`run_iff_derives`).

The rules alone ask for no text. A derivation that quotes a value without a text
is no run: the evaluator stops instead of answering, at every depth. Nothing else
comes between the two (`Derives.settles`), but this does: a promise that is its
own result has no text, and a call that mentions it fails by stopping
(`unwritable_call`). -/
namespace LispCore

/-- A rendering that gives every value a text, and the usual one where there is one. -/
structure Quotation where
  text : Store → Value → String
  shows {s : Store} {v : Value} {t : String} : Shows s v t → text s v = t

/-- The quotations that a total rendering allows. -/
def Quotation.Quotes (q : Quotation) (s : Store) (v : Value) (text : String) : Prop :=
  q.text s v = text

/-! ## Limits that are large enough -/

/-- A property of the depth, the links of a machine and the links of one chain holds
once they are large enough. -/
def Eventually (P : Nat → Nat → Nat → Prop) : Prop :=
  ∃ bound, ∀ d n k, bound ≤ d → bound ≤ n → bound ≤ k → P d n k

namespace Eventually
variable {P Q : Nat → Nat → Nat → Prop}

theorem of_all (h : ∀ d n k, P d n k) : Eventually P := ⟨0, fun d n k _ _ _ => h d n k⟩

theorem and (hP : Eventually P) (hQ : Eventually Q) : Eventually fun d n k => P d n k ∧ Q d n k := by
  obtain ⟨b, hP⟩ := hP
  obtain ⟨c, hQ⟩ := hQ
  refine ⟨max b c, fun d n k hd hn hk => ⟨hP d n k ?_ ?_ ?_, hQ d n k ?_ ?_ ?_⟩⟩ <;> omega

theorem mono (hP : Eventually P) (h : ∀ d n k, P d n k → Q d n k) : Eventually Q := by
  obtain ⟨b, hP⟩ := hP
  exact ⟨b, fun d n k hd hn hk => h d n k (hP d n k hd hn hk)⟩

/-- One level more is enough for what a level needs. -/
theorem deeper (hP : Eventually P) (h : ∀ d n k, P d n k → Q (d + 1) n k) : Eventually Q := by
  obtain ⟨b, hP⟩ := hP
  refine ⟨b + 1, fun d n k hd hn hk => ?_⟩
  obtain ⟨e, rfl⟩ : ∃ e, d = e + 1 := ⟨d - 1, by omega⟩
  exact h e n k (hP e n k (by omega) (by omega) (by omega))

theorem of_succ (h : ∀ d n k, P (d + 1) n k) : Eventually P :=
  (of_all fun _ _ _ => trivial).deeper fun d n k _ => h d n k

/-- One link more is enough for what a link needs. -/
theorem longer (hP : Eventually P) (h : ∀ d n k, P d n k → Q d n (k + 1)) : Eventually Q := by
  obtain ⟨b, hP⟩ := hP
  refine ⟨b + 1, fun d n k hd hn hk => ?_⟩
  obtain ⟨l, rfl⟩ : ∃ l, k = l + 1 := ⟨k - 1, by omega⟩
  exact h d n l (hP d n l (by omega) (by omega) (by omega))

/-- A chain that a native has followed may take all links of the machine. -/
theorem ofMachine (hP : Eventually P) : Eventually fun d n _ => P d n n := by
  obtain ⟨b, hP⟩ := hP
  exact ⟨b, fun d n k hd hn _ => hP d n n hd hn hn⟩

end Eventually

/-! ## Derivations are found -/

/-- The computation gives the answer, unless stopping at an unwritable text is
conceded and it does so. -/
def Gives (conceded : Prop) {α : Type} (x : EvalM α) (s : Store) (a : α) (t : Store) : Prop :=
  x s = .ok a t ∨ conceded ∧ ∃ (why : Unwritable) (u : Store), x s = .error why.stop u

namespace Gives
variable {conceded : Prop} {α β : Type} {x : EvalM α} {f : α → EvalM β} {s t u : Store}
  {a : α} {b : β}

theorem bind (hx : Gives conceded x s a t) (hf : Gives conceded (f a) t b u) :
    Gives conceded (x >>= f) s b u := by
  rcases hx with hx | ⟨hc, why, v, hx⟩
  · rw [Gives, EvalM.bind_ok hx]
    exact hf
  · exact .inr ⟨hc, why, v, EvalM.bind_error hx⟩

theorem pure (a : α) (s : Store) : Gives conceded (pure a : EvalM α) s a s := .inl rfl

theorem read_bind {g : Store → α} (h : Gives conceded (f (g s)) s b u) :
    Gives conceded (EvalM.read g >>= f) s b u := h

theorem ite_true {y : EvalM α} {c : Bool} (hc : c = true) (h : Gives conceded x s a t) :
    Gives conceded (if c = true then x else y) s a t := by
  rw [if_pos hc]; exact h

theorem ite_false {y : EvalM α} {c : Bool} (hc : c = false) (h : Gives conceded x s a t) :
    Gives conceded (if c = true then y else x) s a t := by
  rw [if_neg (Bool.eq_false_iff.mp hc)]; exact h

end Gives

/-- The quotations of a derivation are texts that rendering gives, apart from those
of unwritable values where these are conceded. -/
def Faithful (conceded : Prop) (quote : Store → Value → String → Prop) : Prop :=
  ∀ ⦃s v text⦄, quote s v text → Shows s v text ∨ conceded ∧ ∀ other, ¬ Shows s v other

theorem faithful_shows : Faithful False Shows := fun _ _ _ h => .inl h

theorem Quotation.faithful (q : Quotation) : Faithful True q.Quotes := by
  intro s v text h
  by_cases hv : ∃ other, Shows s v other
  · obtain ⟨other, hother⟩ := hv
    rw [← h, q.shows hother]
    exact .inl hother
  · exact .inr ⟨trivial, fun other hother => hv ⟨other, hother⟩⟩

theorem Shows.eventually {s : Store} {v : Value} {text : String} (h : Shows s v text) :
    Eventually fun d _ _ => EvalM.render d v s = .ok text s := by
  obtain ⟨b, hb⟩ := h
  refine ⟨b, fun d _ _ hd _ _ => ?_⟩
  unfold EvalM.render
  rcases render_below s hd v with hr | hr
  · rw [hb] at hr; cases hr
  · rw [hr, hb]

theorem Faithful.render {conceded : Prop} {quote : Store → Value → String → Prop}
    (hq : Faithful conceded quote) {s : Store} {v : Value} {text : String}
    (h : quote s v text) : Eventually fun d _ _ => Gives conceded (EvalM.render d v) s text s := by
  rcases hq h with hshow | ⟨hc, hno⟩
  · exact hshow.eventually.mono fun _ _ _ hr => .inl hr
  · refine .of_all fun d n k => ?_
    unfold Gives EvalM.render
    cases hr : s.render d v with
    | ok other => exact absurd ⟨d, hr⟩ (hno other)
    | error why => exact .inr ⟨hc, why, s, rfl⟩

section Settling
variable {conceded : Prop} {quote : Store → Value → String → Prop} {m : Machine}

/-- The evaluator comes to the answer of a task within all large enough limits. -/
def Settles (conceded : Prop) (m : Machine) (task : Task) (s : Store) (a : Answer) (t : Store) :
    Prop :=
  Eventually fun d n k => Gives conceded (task.run (m.withLinks n) d k) s a t

theorem improper_settles (hq : Faithful conceded quote) {tail : Value} {s : Store} {text : String}
    (h : quote s tail text) :
    Eventually fun d n _ => Gives conceded ((m.withLinks n).improperArguments d tail) s .failure
      (m.noted .evaluator ("Improper argument list tail: " ++ text) s) :=
  (hq.render h).mono fun _ _ _ hr => hr.bind (.inl rfl)

theorem Acts.settles {r : Request} {s t : Store} {reply : r.Reply} (h : Acts r s reply t) :
    Eventually fun d n _ => ∀ self : Call → EvalM Answer,
      Gives conceded ((m.withLinks n).serveWith d self r) s reply t := by
  cases h with
  | render hshow => exact hshow.eventually.mono fun d n k hr _ => .inl hr
  | _ => exact .of_all fun _ _ _ _ => .inl rfl

/-- **Every derivation is found within large enough limits**, except where it quotes
a value that has no text and the evaluator stops for it. -/
theorem Derives.settles (hq : Faithful conceded quote) {task : Task} {s t : Store} {a : Answer}
    (h : Derives m quote task s a t) : Settles conceded m task s a t := by
  induction h with
  | bound hv =>
    refine .of_succ fun d n k => .read_bind ?_
    rw [hv]
    exact .pure _ _
  | unbound hv =>
    refine .of_succ fun d n k => .read_bind ?_
    rw [hv]
    exact .inl rfl
  | apply _ hok _ ih ih' =>
    exact (ih.and ih').deeper fun d n k ⟨h, h'⟩ => h.bind (.ite_true hok h')
  | headFails _ hok hquote ih =>
    exact (ih.and (hq.render hquote)).deeper fun d n k ⟨h, hr⟩ =>
      h.bind (.ite_false hok (hr.bind (.inl rfl)))
  | promise _ ih => exact ih.deeper fun d n k h => h
  | @itself e env s hs hp hd =>
    refine .of_succ fun d n k => .inl ?_
    cases e with
    | symbol => exact absurd rfl hs
    | pair => exact absurd rfl hp
    | promise => exact absurd rfl hd
    | _ => rfl
  | lazyNative hl _ ih => exact ih.mono fun d n k h => .ite_true hl h
  | eagerNative hl _ hok _ ih ih' =>
    exact (ih.and ih').mono fun d n k ⟨h, h'⟩ => .ite_false hl (h.bind (.ite_true hok h'))
  | nativeUnmet hl _ hok ih =>
    exact ih.mono fun d n k h => .ite_false hl (h.bind (.ite_false hok (.pure _ _)))
  | closure _ hok _ ih ih' =>
    exact (ih.and ih').mono fun d n k ⟨h, h'⟩ => h.bind (.ite_true hok h')
  | closureUnmet _ hok ih =>
    exact ih.mono fun d n k h => h.bind (.ite_false hok (.pure _ _))
  | @notProcedure e callee args env s shown whole hn hc hshown hwhole =>
    refine ((hq.render hshown).and (hq.render hwhole)).mono fun d n k ⟨h, h'⟩ => ?_
    cases callee with
    | native => exact absurd rfl hn
    | closure => exact absurd rfl hc
    | _ => exact h.bind (h'.bind (.inl rfl))
  | noArguments => exact .of_succ fun d n k => .pure _ _
  | argument _ hok _ hok' ih ih' =>
    exact (ih.and ih').deeper fun d n k ⟨h, h'⟩ =>
      h.bind (.ite_true hok (h'.bind (.ite_true hok' (.inl rfl))))
  | argumentFails _ hok ih =>
    exact ih.deeper fun d n k h => h.bind (.ite_false hok (.pure _ _))
  | argumentsFail _ hok _ hok' ih ih' =>
    exact (ih.and ih').deeper fun d n k ⟨h, h'⟩ =>
      h.bind (.ite_true hok (h'.bind (.ite_false hok' (.pure _ _))))
  | @improper env tail s text hn hp hquote =>
    refine (improper_settles (m := m) hq hquote).deeper fun d n k h => ?_
    cases tail with
    | nil => exact absurd rfl hn
    | pair => exact absurd rfl hp
    | _ => exact h
  | noDeferred => exact .of_succ fun d n k => .pure _ _
  | defer _ hok ih => exact ih.deeper fun d n k h => h.bind (.ite_true hok (.inl rfl))
  | deferFails _ hok ih => exact ih.deeper fun d n k h => h.bind (.ite_false hok (.pure _ _))
  | @improperDeferred env tail s text hn hp hquote =>
    refine (improper_settles (m := m) hq hquote).deeper fun d n k h => ?_
    cases tail with
    | nil => exact absurd rfl hn
    | pair => exact absurd rfl hp
    | _ => exact h
  | stored hb =>
    refine .of_succ fun d n k => .read_bind ?_
    rw [hb]
    exact .pure _ _
  | fresh hb _ ih =>
    refine ih.deeper fun d n k h => .read_bind ?_
    rw [hb]
    exact h.bind (.inl rfl)
  | @resolved v s hv =>
    refine .of_all fun d n k => .inl ?_
    cases v with
    | promise => exact absurd rfl hv
    | _ => cases k <;> rfl
  | chainFails _ hok ih => exact ih.longer fun d n k h => h.bind (.ite_false hok (.pure _ _))
  | follow _ hok _ ih ih' =>
    exact (ih.and ih').longer fun d n k ⟨h, h'⟩ => h.bind (.ite_true hok h')
  | body hfits _ ih =>
    exact ih.deeper fun d n k h => Gives.bind (.inl (Machine.enter_of_fits hfits _)) h
  | misfit hstrict hmisfit =>
    exact .of_succ fun d n k =>
      Gives.bind (.inl (Machine.enter_of_misfit hstrict hmisfit _)) (.pure _ _)
  | native _ hok ih =>
    exact ih.deeper fun d n k h => h.bind (.bind (.ite_true hok (.pure _ _)) (.pure _ _))
  | nativeFails _ hok ih =>
    exact ih.deeper fun d n k h => h.bind (.bind (.ite_false hok (.inl rfl)) (.pure _ _))
  | done => exact .of_all fun d n k => .pure _ _
  | askEvaluate _ _ ih ih' => exact (ih.and ih').mono fun d n k ⟨h, h'⟩ => h.bind h'
  | askForce _ _ ih ih' => exact (ih.ofMachine.and ih').mono fun d n k ⟨h, h'⟩ => h.bind h'
  | askClosure _ _ ih ih' => exact (ih.and ih').mono fun d n k ⟨h, h'⟩ => h.bind h'
  | askNative _ _ ih ih' => exact (ih.and ih').mono fun d n k ⟨h, h'⟩ => h.bind h'
  | act hact _ ih' => exact (hact.settles.and ih').mono fun d n k ⟨h, h'⟩ => (h _).bind h'

end Settling

/-- **What the evaluator answers within some limits is what is derivable**, of every
task. -/
theorem run_iff_derives {m : Machine} {task : Task} {s t : Store} {a : Answer} :
    (∃ d n k, task.run (m.withLinks n) d k s = .ok a t) ↔ Derives m Shows task s a t := by
  constructor
  · rintro ⟨d, n, k, h⟩
    exact run_sound h
  · intro h
    obtain ⟨b, hb⟩ := h.settles faithful_shows
    rcases hb b b b (Nat.le_refl b) (Nat.le_refl b) (Nat.le_refl b) with hok | ⟨hc, _⟩
    · exact ⟨b, b, b, hok⟩
    · exact hc.elim

theorem Derives.eventually {m : Machine} {task : Task} {s t : Store} {a : Answer}
    (h : Derives m Shows task s a t) :
    Eventually fun d n k => task.run (m.withLinks n) d k s = .ok a t :=
  (h.settles faithful_shows).mono fun _ _ _ hgives => hgives.resolve_right (·.1)

/-- What the rules give, with a text for every value, is answered within all large enough limits,
unless it cannot be derived with the texts that there are. -/
theorem Derives.eventually_or {m : Machine} {q : Quotation} {task : Task} {s t : Store} {a : Answer}
    (h : Derives m q.Quotes task s a t) :
    Eventually fun d n k => task.run (m.withLinks n) d k s = .ok a t ∨
      ¬ Derives m Shows task s a t ∧
        ∃ (why : Unwritable) (u : Store), task.run (m.withLinks n) d k s = .error why.stop u := by
  by_cases hshows : Derives m Shows task s a t
  · exact hshows.eventually.mono fun _ _ _ hrun => .inl hrun
  · exact (h.settles q.faithful).mono fun _ _ _ hgives =>
      hgives.imp_right fun hstop => ⟨hshows, hstop.2⟩

/-- A task has one answer and leaves one store. -/
theorem Derives.unique {m : Machine} {task : Task} {s t u : Store} {a b : Answer}
    (h : Derives m Shows task s a t) (h' : Derives m Shows task s b u) : a = b ∧ t = u := by
  obtain ⟨n, hn⟩ := h.eventually.and h'.eventually
  obtain ⟨hrun, hrun'⟩ := hn n n n (Nat.le_refl n) (Nat.le_refl n) (Nat.le_refl n)
  rw [hrun] at hrun'
  cases hrun'
  exact ⟨rfl, rfl⟩

/-! ## Values without a text -/

theorem Shows.unique {s : Store} {v : Value} {text text' : String} (h : Shows s v text)
    (h' : Shows s v text') : text = text' := by
  obtain ⟨b, hb⟩ := h.eventually.and h'.eventually
  obtain ⟨hr, hr'⟩ := hb b b b (Nat.le_refl b) (Nat.le_refl b) (Nat.le_refl b)
  rw [hr] at hr'
  cases hr'
  rfl

open Classical in
instance : Nonempty Quotation :=
  ⟨{ text := fun s v => if h : ∃ text, Shows s v text then h.choose else ""
     shows := fun {_ _ _} h => by
      rw [dif_pos ⟨_, h⟩]
      exact Shows.unique (Exists.choose_spec ⟨_, h⟩) h }⟩

/-- A promise that is its own result cannot be written. -/
theorem render_own_result {s : Store} {id : PromiseId} (h : (s.promise id).shown = .promise id)
    (d : Nat) : s.render d (.promise id) = .error .tooDeep := by
  induction d with
  | zero => rfl
  | succ d ih =>
    change (s.render d (s.promise id).shown).map _ = _
    rw [h, ih]
    rfl

/-- Nor can a list that it follows a name in. -/
theorem render_list_own_result {s : Store} {id : PromiseId}
    (h : (s.promise id).shown = .promise id) (name : String) (d : Nat) :
    s.render d (form [.symbol name, .promise id]) = .error .tooDeep := by
  match d with
  | 0 | 1 => rfl
  | d + 2 =>
    have hopened : s.renderAt d .alone (.promise id) = .error .tooDeep := render_own_result h d
    simp only [form, List.foldr, Store.render, Store.renderAt, Value.renderWith, hopened]
    rfl

/-- A promise whose expression is a name that is bound to the promise itself. -/
def looseKnot : Store where
  mappings := #[.ofList [("t", .promise ⟨0⟩)]]
  environments := #[⟨⟨0⟩, none⟩]
  promises := #[⟨.symbol "t", ⟨0⟩, none⟩]

/-- The same once it has been forced: the promise is its own result. -/
def knot : Store := looseKnot.memoise ⟨0⟩ (.success (.promise ⟨0⟩))

/-- A call of an unbound name on the knot looks the name up and then cannot write the note on
its failure, if it comes so far. It makes no other calls. -/
theorem knot_call_traced (m : Machine) (depth : Nat) :
    ∃ t l, (t.promise ⟨0⟩).shown = .promise ⟨0⟩ ∧
      m.traced depth (.evaluate (form [.symbol "nosuch", .promise ⟨0⟩]) ⟨0⟩) knot =
        (.error .tooDeep t, l) ∧
      ∀ c ∈ l, ∃ e, c.call = .evaluate e ⟨0⟩ := by
  match depth with
  | 0 =>
    refine ⟨knot, [.mk (.evaluate (form [.symbol "nosuch", .promise ⟨0⟩]) ⟨0⟩) knot
      (.error .tooDeep knot) []], rfl, rfl, ?_⟩
    simp [Made.call]
  | 1 =>
    refine ⟨knot, [.mk (.evaluate (.symbol "nosuch") ⟨0⟩) knot (.error .tooDeep knot) [],
      .mk (.evaluate (form [.symbol "nosuch", .promise ⟨0⟩]) ⟨0⟩) knot (.error .tooDeep knot)
        [.mk (.evaluate (.symbol "nosuch") ⟨0⟩) knot (.error .tooDeep knot) []]], rfl, rfl, ?_⟩
    simp [Made.call]
  | depth + 2 =>
    have hshown : ((m.noted .evaluator "Unbound symbol nosuch" knot).promise ⟨0⟩).shown =
        .promise ⟨0⟩ := by
      unfold Machine.noted Store.note
      split <;> rfl
    have hhead : m.traced (depth + 1) (.evaluate (.symbol "nosuch") ⟨0⟩) knot =
        (.ok .failure (m.noted .evaluator "Unbound symbol nosuch" knot),
          [.mk (.evaluate (.symbol "nosuch") ⟨0⟩) knot
            (.ok .failure (m.noted .evaluator "Unbound symbol nosuch" knot)) []]) := rfl
    have hnote : (liftM (EvalM.render (depth + 1) (form [.symbol "nosuch", .promise ⟨0⟩])) >>=
          fun whole => (do
            m.note .evaluator .debug ("Callee failed to evaluate in " ++ whole)
            pure .failure : TraceM Answer)) (m.noted .evaluator "Unbound symbol nosuch" knot) =
        (.error .tooDeep (m.noted .evaluator "Unbound symbol nosuch" knot), []) :=
      TraceM.bind_error
        (TraceM.render_of_error (render_list_own_result hshown "nosuch" (depth + 1)))
    have hstep : m.step (depth + 1) (m.traced (depth + 1))
        (.evaluate (form [.symbol "nosuch", .promise ⟨0⟩]) ⟨0⟩) knot =
        (.error .tooDeep (m.noted .evaluator "Unbound symbol nosuch" knot),
          [.mk (.evaluate (.symbol "nosuch") ⟨0⟩) knot
            (.ok .failure (m.noted .evaluator "Unbound symbol nosuch" knot)) []] ++ []) :=
      (TraceM.bind_ok hhead).trans (congrArg (fun r => (r.1, _ ++ r.2)) hnote)
    exact ⟨_, _, hshown, traced_of_step hstep, by simp [Made.call]⟩

/-- So it goes too deep at every depth. -/
theorem knot_call_tooDeep (m : Machine) (depth : Nat) :
    ∃ t, (t.promise ⟨0⟩).shown = .promise ⟨0⟩ ∧
      m.evaluate depth (form [.symbol "nosuch", .promise ⟨0⟩]) ⟨0⟩ knot = .error .tooDeep t := by
  obtain ⟨t, l, hshown, htraced, -⟩ := knot_call_traced m depth
  refine ⟨t, hshown, ?_⟩
  rw [Machine.evaluate, ← traced_fst, htraced]

/-- **The evaluator computes the language of the rules.** An answer is given within
some limits exactly when it is derivable with the texts that rendering gives. All
that is derivable at all, with a text for every value, the evaluator answers within
large enough limits, or it stops at the text of a value that cannot be written. -/
theorem evaluate_iff_derives (m : Machine) (e : Value) (env : EnvId) (s t : Store) (a : Answer) :
    ((∃ depth links, (m.withLinks links).evaluate depth e env s = .ok a t) ↔
        Derives m Shows (.call (.evaluate e env)) s a t) ∧
      ∀ q : Quotation,
        (Derives m Shows (.call (.evaluate e env)) s a t →
          Derives m q.Quotes (.call (.evaluate e env)) s a t) ∧
        (Derives m q.Quotes (.call (.evaluate e env)) s a t →
          ∃ bound, ∀ depth links, bound ≤ depth → bound ≤ links →
            (m.withLinks links).evaluate depth e env s = .ok a t ∨
              ∃ (why : Unwritable) (u : Store),
                (m.withLinks links).evaluate depth e env s = .error why.stop u) := by
  refine ⟨⟨fun ⟨depth, links, h⟩ => ?_, fun h => ?_⟩, fun q => ⟨fun h => ?_, fun h => ?_⟩⟩
  · exact run_iff_derives.mp ⟨depth, links, 0, h⟩
  · obtain ⟨depth, links, _, hrun⟩ := run_iff_derives.mpr h
    exact ⟨depth, links, hrun⟩
  · exact h.mono fun _ _ _ hshow => q.shows hshow
  · obtain ⟨b, hb⟩ := h.settles q.faithful
    refine ⟨b, fun depth links hd hl => ?_⟩
    exact (hb depth links links hd hl hl).imp_right And.right

/-- A call of an unbound name on a promise that is its own result fails by the
rules, but the evaluator answers it within no limits. -/
theorem unwritable_call :
    Prelude.machine.perform 2 (.force ⟨0⟩) looseKnot = .ok (.success (.promise ⟨0⟩)) knot ∧
      (∀ q : Quotation, ∃ t, Derives Prelude.machine q.Quotes
        (.call (.evaluate (form [.symbol "nosuch", .promise ⟨0⟩]) ⟨0⟩)) knot .failure t) ∧
      ∀ depth links a t, (Prelude.machine.withLinks links).evaluate depth
        (form [.symbol "nosuch", .promise ⟨0⟩]) ⟨0⟩ knot ≠ .ok a t := by
  refine ⟨rfl, fun q => ⟨_, .headFails (.unbound rfl) rfl rfl⟩, fun depth links a t h => ?_⟩
  obtain ⟨u, -, hu⟩ := knot_call_tooDeep (Prelude.machine.withLinks links) depth
  rw [hu] at h
  cases h

end LispCore
