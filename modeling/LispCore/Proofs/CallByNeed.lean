import LispCore.Proofs.Conduct
import LispCore.Proofs.Forth
import LispCore.Proofs.NaturalPrelude

/-! # Call by need is call by name

A promise is evaluated once and its answer stored. Where natives are uniform this cannot
be told from evaluating its expression every time: from a store in which nothing is
forced, the evaluator completes when evaluation by name does, and the answers agree
(`need_agrees_with_name`).

The two runs drift apart, so their stores are compared by what is alike in them. Three
simulations make up the argument, all of them instances of `Sides.call`. Evaluation by
name does the same from stores that are alike (`name_name`). A stored answer is justified
by a run by name, of a promise that is alike and from some store in which nothing is
forced (`Justified`); by the first simulation it does not matter from which. With this
the evaluator is followed by evaluation by name (`need_name`), and the other way round
(`name_need`).

Only texts come between the two. The journal quotes values, a promise is quoted by its
stored value or by its expression, and one of them may have a text where the other has
none; then one run completes and the other stops at the text. A native that quotes a
promise tells the two evaluators apart (`texts_tell_apart`), so uniform natives quote
nothing. -/
namespace LispCore

open Machine (forceOnceWith reevaluateWith)

/-! ## By name on both sides -/

/-- Nothing is forced, and the marks below the bound have been given out. -/
structure Unshared (b : Nat) (s : Store) : Prop where
  unforced : s.Unforced
  marks : b ≤ s.marks

theorem Unshared.enlarged {b : Nat} {s t : Store} (hst : s.Enlarged t) (h : Unshared b s) :
    Unshared b t :=
  ⟨h.unforced.enlarged hst, Nat.le_trans h.marks hst.marks⟩

section Simulations
variable {b : Nat} {m : Machine} {s s' s'' t : Store} {a a' a'' : Answer}

theorem answers_alike_symm (h : Likeness.uniform.Answers (alike b s s') a a') :
    Likeness.uniform.Answers (alike b s' s) a' a :=
  ⟨h.ok.symm, paired_alike_symm h.value⟩

theorem answers_alike_trans (h : Likeness.uniform.Answers (alike b s s') a a')
    (h' : Likeness.uniform.Answers (alike b s' s'') a' a'') :
    Likeness.uniform.Answers (alike b s s'') a a'' :=
  ⟨h.ok.trans h'.ok, paired_alike_trans h.value h'.value⟩

/-- Promises that are alike are evaluated alike, if calls are. -/
theorem Forth.reevaluate {conceded : Prop} {A A' : Store → Prop} {self : Call → EvalM Answer}
    {self' : Limits → Call → EvalM Answer}
    (hs : ∀ w c c', Likeness.uniform.Calls w c c' →
      Forth b conceded A A' w Likeness.uniform.Answers (self c) fun i => self' i c')
    {w : Pairing} {id id' : PromiseId} (hid : w.promise id id') :
    Forth b conceded A A' w Likeness.uniform.Answers (reevaluateWith self id)
      fun i => reevaluateWith (self' i) id' := by
  intro s s' hw hA hA' a t hx
  have hp := alike_promise (hw.promise id id' hid)
  rcases hs _ _ _ (.evaluate hp.expression hp.env) s s' (.refl _) hA hA' a t hx with
    ⟨c, t', hy, ho, w', hw', hle, ha⟩ | hhalt
  · exact .inl ⟨c, t', hy, ho, w', hw.trans hw', hle, ha⟩
  · exact .inr hhalt

/-- Where nothing is forced on either side, texts are the same. -/
theorem sides_name_name (b : Nat) : Sides b False (Unshared b) (Unshared b) where
  left := Unshared.enlarged
  right := Unshared.enlarged
  marks h := h.marks
  marks' h := h.marks
  text {s s' v v' d text} h h' hv hr := by
    have heq := (presents_alike h.unforced h'.unforced).render d hv
    exact .inl ⟨text, d, heq ▸ hr⟩

/-- **By name, calls do the same from stores that are alike.** -/
theorem name_name (hl : m.library.Uniform) (d n : Nat) (w : Pairing) (c c' : Call)
    (hc : Likeness.uniform.Calls w c c') :
    Forth b False (Unshared b) (Unshared b) w Likeness.uniform.Answers
      (m.callWithin reevaluateWith ⟨d, n, 0⟩ c) fun i => m.callWithin reevaluateWith i c' :=
  (sides_name_name b).call hl n (fun _ hs _ _ _ hid => .reevaluate hs hid) d hc

/-! ## Stored answers -/

/-- An answer stored for a promise is what evaluation by name gives for a promise that is
alike, in some store in which nothing is forced. -/
inductive Justification (m : Machine) (b : Nat) (s : Store) (id : PromiseId) (a : Answer) : Prop
  | mk {s₀ t₀ : Store} {id₀ : PromiseId} {a₀ : Answer} : Unshared b s₀ →
      (alike b s s₀).promise id id₀ →
      Reaches (fun i => reevaluateWith (m.callWithin reevaluateWith i) id₀) s₀ a₀ t₀ →
      Likeness.uniform.Answers (alike b s t₀) a a₀ → Justification m b s id a

/-- All stored answers are justified. -/
structure Justified (m : Machine) (b : Nat) (s : Store) : Prop where
  stored : ∀ id a, s.memo id = some a → Justification m b s id a
  marks : b ≤ s.marks

theorem Justification.grown {id : PromiseId} (hst : s.Grown t) (h : Justification m b s id a) :
    Justification m b t id a := by
  obtain ⟨hs₀, hid, hrun, ha⟩ := h
  exact ⟨hs₀, (alike_mono hst (.refl _)).promise _ _ hid, hrun, ha.mono (alike_mono hst (.refl _))⟩

theorem Justified.enlarged (hst : s.Enlarged t) (h : Justified m b s) : Justified m b t where
  stored id a hm := (h.stored id a (hst.memo id a hm)).grown hst.toGrown
  marks := Nat.le_trans h.marks hst.marks

theorem Justified.memoise {id : PromiseId} (h : Justified m b s)
    (hid : Justification m b (s.memoise id a) id a) : Justified m b (s.memoise id a) where
  stored other a' hm := by
    rw [Store.memo_memoise] at hm
    split at hm
    · next hother =>
      cases hm
      exact hother.1 ▸ hid
    · exact (h.stored other a' hm).grown (.memoise s id a)
  marks := h.marks

/-- The stored answer of a promise of the store is justified. -/
theorem Justified.promise {id : PromiseId} (h : Justified m b s) (hid : id.index < s.promises.size)
    (hm : (s.promise id).memo = some a) : Justification m b s id a := by
  refine h.stored id a ?_
  rw [← hm]
  simp [Store.memo, Store.promise, Array.getD_eq_getD_getElem?, hid]

/-- The run by name that justifies an answer can be repeated wherever nothing is forced and
the promise is alike. -/
theorem Justification.repeated {id id' : PromiseId} (hl : m.library.Uniform)
    (h : Justification m b s id a) (hid : (alike b s s').promise id id') (hU : Unshared b s') :
    ∃ a' t', Reaches (fun i => reevaluateWith (m.callWithin reevaluateWith i) id') s' a' t' ∧
      s'.Grown t' ∧ Unshared b t' ∧ Likeness.uniform.Answers (alike b s t') a a' := by
  obtain ⟨hU₀, hid₀, hrun, ha₀⟩ := h
  obtain ⟨bound, hrun⟩ := hrun.some
  have hid' : (alike b _ s').promise _ id' :=
    alike_comp.promise _ _ ⟨id, alike_flip.promise _ _ hid₀, hid⟩
  rcases Forth.reevaluate (name_name hl bound bound) hid' _ s' (.refl _) hU₀ hU _ _ hrun with
    ⟨a', t', hy, ho, w, -, hle, ha⟩ | ⟨hfalse, -⟩
  · exact ⟨a', t', hy, ho.grown', ho.right, answers_alike_trans ha₀ (ha.mono hle)⟩
  · exact hfalse.elim

/-! ## By need on the first side -/

theorem sides_need_name (m : Machine) (b : Nat) : Sides b True (Justified m b) (Unshared b) where
  left := Justified.enlarged
  right := Unshared.enlarged
  marks h := h.marks
  marks' h := h.marks
  text _ _ _ _ := .inr trivial

/-- A promise whose answer is stored, or stored now. -/
theorem Forth.need_promise (hl : m.library.Uniform) {d n : Nat}
    (hs : ∀ w c c', Likeness.uniform.Calls w c c' →
      Forth b True (Justified m b) (Unshared b) w Likeness.uniform.Answers
        (m.callWithin forceOnceWith ⟨d, n, 0⟩ c) fun i => m.callWithin reevaluateWith i c')
    {w : Pairing} {id id' : PromiseId} (hid : w.promise id id') :
    Forth b True (Justified m b) (Unshared b) w Likeness.uniform.Answers
      (forceOnceWith (m.callWithin forceOnceWith ⟨d, n, 0⟩) id)
      fun i => reevaluateWith (m.callWithin reevaluateWith i) id' := by
  intro s s' hw hJ hU a t hx
  have hp := alike_promise (hw.promise id id' hid)
  cases hm : (s.promise id).memo with
  | some stored =>
    rw [forceOnceWith_of_some hm] at hx
    cases hx
    obtain ⟨c, t', hy, hgrown, hU', ha⟩ :=
      (hJ.promise hp.left hm).repeated hl (hw.promise id id' hid) hU
    exact .inl ⟨c, t', hy, ⟨.refl s, hgrown, hJ, hU'⟩, alike b s t',
      hw.trans (alike_mono (.refl s) hgrown), .refl _, ha⟩
  | none =>
    rw [forceOnceWith_of_none hm] at hx
    cases heval : m.callWithin forceOnceWith ⟨d, n, 0⟩
        (.evaluate (s.promise id).expression (s.promise id).env) s with
    | error e u =>
      rw [EvalM.bind_error heval] at hx
      cases hx
    | ok a₁ u =>
      rw [EvalM.bind_ok heval] at hx
      cases hx
      rcases hs _ _ _ (.evaluate hp.expression hp.env) s s' (.refl _) hJ hU a u heval with
        ⟨c, t', hy, ho, w', -, hle, ha⟩ | hhalt
      · -- the run that has just been followed justifies the answer
        have hgrown : s.Grown (u.memoise id a) := ho.grown.trans (.memoise u id a)
        have hstored := alike_mono (b := b) (Store.Grown.memoise u id a) (.refl t')
        have hans : Likeness.uniform.Answers (alike b (u.memoise id a) t') a c :=
          ha.mono (hle.trans hstored)
        have hjust : Justified m b (u.memoise id a) :=
          ho.left.memoise ⟨hU, (alike_mono hgrown (.refl s')).promise _ _ (hw.promise _ _ hid),
            hy, hans⟩
        exact .inl ⟨c, t', hy, ⟨hgrown, ho.grown', hjust, ho.right⟩, _,
          hw.trans (alike_mono hgrown ho.grown'), .refl _, hans⟩
      · exact .inr hhalt

/-- **The evaluator is followed by evaluation by name.** -/
theorem need_name (hl : m.library.Uniform) (d n : Nat) (w : Pairing) (c c' : Call)
    (hc : Likeness.uniform.Calls w c c') :
    Forth b True (Justified m b) (Unshared b) w Likeness.uniform.Answers
      (m.callWithin forceOnceWith ⟨d, n, 0⟩ c) fun i => m.callWithin reevaluateWith i c' :=
  (sides_need_name m b).call hl n (fun _ hs _ _ _ hid => .need_promise hl hs hid) d hc

/-! ## By need on the second side -/

theorem sides_name_need (m : Machine) (b : Nat) : Sides b True (Unshared b) (Justified m b) where
  left := Unshared.enlarged
  right := Justified.enlarged
  marks h := h.marks
  marks' h := h.marks
  text _ _ _ _ := .inr trivial

theorem Forth.name_promise (hl : m.library.Uniform) {d n : Nat}
    (hs : ∀ w c c', Likeness.uniform.Calls w c c' →
      Forth b True (Unshared b) (Justified m b) w Likeness.uniform.Answers
        (m.callWithin reevaluateWith ⟨d, n, 0⟩ c) fun i => m.callWithin forceOnceWith i c')
    {w : Pairing} {id id' : PromiseId} (hid : w.promise id id') :
    Forth b True (Unshared b) (Justified m b) w Likeness.uniform.Answers
      (reevaluateWith (m.callWithin reevaluateWith ⟨d, n, 0⟩) id)
      fun i => forceOnceWith (m.callWithin forceOnceWith i) id' := by
  intro s s' hw hU hJ a t hx
  have hp := alike_promise (hw.promise id id' hid)
  have hidback := alike_flip.promise _ _ (hw.promise id id' hid)
  have hrun : Reaches (fun i => reevaluateWith (m.callWithin reevaluateWith i) id) s a t :=
    Machine.reaches_call steady_reevaluateWith hx
  cases hm : (s'.promise id').memo with
  | some stored =>
    -- this run and the repetition of the one that justifies the answer are the same
    obtain ⟨c, u, hy, hgrown, hU', ha⟩ := (hJ.promise hp.right hm).repeated hl hidback hU
    obtain ⟨rfl, rfl⟩ := hrun.unique hy
    have hstored : Reaches (fun i => forceOnceWith (m.callWithin forceOnceWith i) id') s' stored
        s' := .of_all fun _ => forceOnceWith_of_some hm
    exact .inl ⟨stored, s', hstored, ⟨hgrown, .refl s', hU', hJ⟩, alike b t s',
      hw.trans (alike_mono hgrown (.refl s')), .refl _, answers_alike_symm ha⟩
  | none =>
    have hforce (i : Limits) : forceOnceWith (m.callWithin forceOnceWith i) id' s' = _ :=
      forceOnceWith_of_none hm
    rcases hs _ _ _ (.evaluate hp.expression hp.env) s s' (.refl _) hU hJ a t hx with
      ⟨c, t', hy, ho, w', -, hle, ha⟩ | ⟨hc, hy⟩
    · have hgrown : s'.Grown (t'.memoise id' c) := ho.grown'.trans (.memoise t' id' c)
      have hstored := alike_mono (b := b) (.refl t) (Store.Grown.memoise t' id' c)
      have hans : Likeness.uniform.Answers (alike b t (t'.memoise id' c)) a c :=
        ha.mono (hle.trans hstored)
      have hjust : Justified m b (t'.memoise id' c) :=
        ho.right.memoise ⟨hU, (alike_mono hgrown (.refl s)).promise _ _ hidback, hrun,
          answers_alike_symm hans⟩
      refine .inl ⟨c, t'.memoise id' c, ?_, ⟨ho.grown, hgrown, ho.left, hjust⟩, _,
        hw.trans (alike_mono ho.grown hgrown), .refl _, hans⟩
      exact hy.mono fun d n k h => (hforce ⟨d, n, k⟩).trans (EvalM.bind_ok h)
    · refine .inr ⟨hc, hy.mono fun d n k ⟨why, u, h⟩ => ⟨why, u, ?_⟩⟩
      exact (hforce ⟨d, n, k⟩).trans (EvalM.bind_error h)

/-- **Evaluation by name is followed by the evaluator.** -/
theorem name_need (hl : m.library.Uniform) (d n : Nat) (w : Pairing) (c c' : Call)
    (hc : Likeness.uniform.Calls w c c') :
    Forth b True (Unshared b) (Justified m b) w Likeness.uniform.Answers
      (m.callWithin reevaluateWith ⟨d, n, 0⟩ c) fun i => m.callWithin forceOnceWith i c' :=
  (sides_name_need m b).call hl n (fun _ hs _ _ _ hid => .name_promise hl hs hid) d hc

end Simulations

/-! ## Main result -/

/-- Some limits are enough for the evaluator to give the answer. -/
def Machine.AnswersByNeed (m : Machine) (e : Value) (env : EnvId) (s : Store) (a : Answer) : Prop :=
  ∃ d n t, (m.withLinks n).evaluateForced d e env s = .ok a t

/-- Some limits are enough for evaluation by name to give the answer. -/
def Machine.AnswersByName (m : Machine) (e : Value) (env : EnvId) (s : Store) (a : Answer) : Prop :=
  ∃ d n t, (m.withLinks n).evaluateByName d e env s = .ok a t

/-- The value is built of atoms, natives, pairs and arrays only. -/
def Value.Objectless (v : Value) : Prop := v.Within fun _ => False

/-- Both answers are successes or both are failures. If one of the values is built of atoms,
natives, pairs and arrays only, the values are the same, up to the marks of what was made
from the mark `b` on. -/
structure Agree (b : Nat) (a a' : Answer) : Prop where
  ok : a.ok = a'.ok
  value : a.value.Objectless ∨ a'.value.Objectless → Paired (.marks b) a.value a'.value

theorem paired_marks {b : Nat} {s s' : Store} {v v' : Value} (h : Paired (alike b s s') v v')
    (hv : v.Objectless) : Paired (.marks b) v v' := by
  have hmark : ∀ i j, (alike b s s').mark i j → (Pairing.marks b).mark i j := fun _ _ hij => hij
  exact h.of_objectless hmark hv

theorem Agree.of_alike {b : Nat} {s s' : Store} {a a' : Answer}
    (h : Likeness.uniform.Answers (alike b s s') a a') : Agree b a a' := by
  refine ⟨h.ok, ?_⟩
  rintro (hv | hv)
  · exact paired_marks h.value hv
  · exact (paired_marks (paired_alike_symm h.value) hv).symm.mono (Pairing.marks_flip b)

section Main
variable {m : Machine} {e : Value} {env : EnvId} {s : Store} {a : Answer}

theorem answersByNeed_iff : m.AnswersByNeed e env s a ↔
    ∃ t, Reaches (fun i => m.evaluateWithin forceOnceWith i e env) s a t := by
  simp only [Machine.AnswersByNeed, Machine.evaluateForced_eq,
    Machine.reaches_evaluate_iff steady_forceOnceWith]
  exact ⟨fun ⟨d, n, t, h⟩ => ⟨t, d, n, h⟩, fun ⟨t, d, n, h⟩ => ⟨d, n, t, h⟩⟩

theorem answersByName_iff : m.AnswersByName e env s a ↔
    ∃ t, Reaches (fun i => m.evaluateWithin reevaluateWith i e env) s a t := by
  simp only [Machine.AnswersByName, Machine.evaluateByName,
    Machine.reaches_evaluate_iff steady_reevaluateWith]
  exact ⟨fun ⟨d, n, t, h⟩ => ⟨t, d, n, h⟩, fun ⟨t, d, n, h⟩ => ⟨d, n, t, h⟩⟩

/-- A store in which nothing is forced is one in which every stored answer is justified. -/
theorem Store.Unforced.justified (h : s.Unforced) : Justified m s.marks s where
  stored id a hm := by
    rw [h id] at hm
    cases hm
  marks := Nat.le_refl _

/-- What the evaluation of an expression refers to is alike to itself. -/
theorem alike_start (hs : s.Closed) (he : e.Within s.Has) (henv : s.Has (.env env)) :
    Paired (alike s.marks s s) e e ∧ (alike s.marks s s).env env env := by
  have hitself := itself_le_alike hs s.marks
  exact ⟨(paired_itself he).mono hitself, hitself.env _ _ ⟨rfl, henv⟩⟩

theorem name_follows_need (hl : m.library.Uniform) (hs : s.Closed) (hu : s.Unforced)
    (he : e.Within s.Has) (henv : s.Has (.env env)) {t : Store}
    (h : Reaches (fun i => m.evaluateWithin forceOnceWith i e env) s a t) :
    (∃ a' t', Reaches (fun i => m.evaluateWithin reevaluateWith i e env) s a' t' ∧
      Agree s.marks a a') ∨ m.StopsAtText reevaluateWith e env s := by
  obtain ⟨hexp, hplace⟩ := alike_start hs he henv
  obtain ⟨bound, h⟩ := h.some
  rcases Forth.forcedWith (need_name hl bound bound) hexp hplace s s (.refl _) hu.justified
    ⟨hu, Nat.le_refl _⟩ a t h with ⟨a', t', hy, -, w, -, hle, ha⟩ | ⟨-, hhalt⟩
  · exact .inl ⟨a', t', hy, .of_alike (ha.mono hle)⟩
  · exact .inr hhalt

theorem need_follows_name (hl : m.library.Uniform) (hs : s.Closed) (hu : s.Unforced)
    (he : e.Within s.Has) (henv : s.Has (.env env)) {t : Store}
    (h : Reaches (fun i => m.evaluateWithin reevaluateWith i e env) s a t) :
    (∃ a' t', Reaches (fun i => m.evaluateWithin forceOnceWith i e env) s a' t') ∨
      m.StopsAtText forceOnceWith e env s := by
  obtain ⟨hexp, hplace⟩ := alike_start hs he henv
  obtain ⟨bound, h⟩ := h.some
  rcases Forth.forcedWith (name_need hl bound bound) hexp hplace s s (.refl _)
    ⟨hu, Nat.le_refl _⟩ hu.justified a t h with ⟨a', t', hy, -⟩ | ⟨-, hhalt⟩
  · exact .inl ⟨a', t', hy⟩
  · exact .inr hhalt

/-- **Storing answers cannot be observed.** Natives are uniform and nothing is forced.
Answers by need and by name agree. If there is an answer by need, there is one by name,
unless evaluation by name stops at a text; if there is one by name, there is one by need,
unless the evaluator stops at a text. -/
theorem need_agrees_with_name (m : Machine) (e : Value) (env : EnvId) (s : Store)
    (hl : m.library.Uniform) (hs : s.Closed) (hu : s.Unforced) (he : e.Within s.Has)
    (henv : s.Has (.env env)) :
    (∀ a a', m.AnswersByNeed e env s a → m.AnswersByName e env s a' → Agree s.marks a a') ∧
      (∀ a, m.AnswersByNeed e env s a →
        (∃ a', m.AnswersByName e env s a') ∨ m.StopsAtText reevaluateWith e env s) ∧
      ∀ a', m.AnswersByName e env s a' →
        (∃ a, m.AnswersByNeed e env s a) ∨ m.StopsAtText forceOnceWith e env s := by
  refine ⟨fun a a' hneed hname => ?_, fun a hneed => ?_, fun a' hname => ?_⟩
  · obtain ⟨t, hneed⟩ := answersByNeed_iff.mp hneed
    obtain ⟨t', hname⟩ := answersByName_iff.mp hname
    rcases name_follows_need hl hs hu he henv hneed with ⟨a'', t'', hreach, hagree⟩ | hhalt
    · obtain ⟨rfl, -⟩ := hreach.unique hname
      exact hagree
    · exact absurd hhalt hname.not_halts
  · obtain ⟨t, hneed⟩ := answersByNeed_iff.mp hneed
    refine (name_follows_need hl hs hu he henv hneed).imp_left ?_
    rintro ⟨a', t', hreach, -⟩
    exact ⟨a', answersByName_iff.mpr ⟨t', hreach⟩⟩
  · obtain ⟨t, hname⟩ := answersByName_iff.mp hname
    refine (need_follows_name hl hs hu he henv hname).imp_left ?_
    rintro ⟨a, t', hreach⟩
    exact ⟨a, answersByNeed_iff.mpr ⟨t', hreach⟩⟩

end Main

/-! ## Samples -/

namespace Prelude

/-- A machine with the natives that neither define nor render. -/
def quietMachine : Machine := { machine with library := quiet }

/-- An environment with natives and a promise of a sum. -/
def promising : Store where
  mappings := #[⟨[("add", .native ⟨⟨0⟩, "add", "add", false⟩),
    ("lazy-lambda", .native ⟨⟨1⟩, "lazy-lambda", "lazy-lambda", true⟩),
    ("t", .promise ⟨0⟩)]⟩]
  environments := #[⟨⟨0⟩, none⟩]
  promises := #[⟨form [.symbol "add", .integer 1, .integer 2], ⟨0⟩, none⟩]
  marks := 2

/-- A call that doubles the promise. Its argument is put off and asked for twice. -/
def doubled : Value :=
  form [form [.symbol "lazy-lambda", form [.symbol "x"],
    form [.symbol "add", .symbol "x", .symbol "x"]], .symbol "t"]

/-- The integer or the string that an evaluation has succeeded with. -/
def atom? : EStateM.Result Stop Store Answer → Option (Int ⊕ String)
  | .ok ⟨.integer n, true⟩ _ => some (.inl n)
  | .ok ⟨.string text, true⟩ _ => some (.inr text)
  | _ => none

theorem eq_of_atom? {r : EStateM.Result Stop Store Answer} {x : Int ⊕ String}
    (h : atom? r = some x) : ∃ t, r = .ok (.success (x.elim .integer .string)) t := by
  unfold atom? at h
  split at h
  · next n t =>
    cases h
    exact ⟨t, rfl⟩
  · next text t =>
    cases h
    exact ⟨t, rfl⟩
  · cases h

theorem doubled_by_need : quietMachine.AnswersByNeed doubled ⟨0⟩ promising (.success (.integer 6)) :=
  ⟨12, 10, eq_of_atom? (x := .inl 6) (by decide +kernel)⟩

theorem doubled_by_name : quietMachine.AnswersByName doubled ⟨0⟩ promising (.success (.integer 6)) :=
  ⟨12, 10, eq_of_atom? (x := .inl 6) (by decide +kernel)⟩

theorem promising_has_env : promising.Has (.env ⟨0⟩) := by
  show ¬ promising.environments.size ≤ 0
  decide

theorem promising_has_promise : promising.Has (.promise ⟨0⟩) := by
  show ¬ promising.promises.size ≤ 0
  decide

theorem promising_closed : promising.Closed where
  holds o o' h := by
    cases h with
    | @entry id name v o hm ho =>
      obtain ⟨_ | i⟩ := id
      · have hv : v.Within promising.Has := by
          have hm' : (name, v) ∈ [("add", Value.native ⟨⟨0⟩, "add", "add", false⟩),
            ("lazy-lambda", .native ⟨⟨1⟩, "lazy-lambda", "lazy-lambda", true⟩),
            ("t", .promise ⟨0⟩)] := hm
          simp only [List.mem_cons, Prod.mk.injEq, List.not_mem_nil, or_false] at hm'
          rcases hm' with ⟨-, rfl⟩ | ⟨-, rfl⟩ | ⟨-, rfl⟩
          · exact Value.within_native _
          · exact Value.within_native _
          · exact Value.within_promise.mpr promising_has_promise
        exact hv _ ho
      · cases hm
    | @frame env e he =>
      obtain ⟨_ | i⟩ := env
      · cases he
        show ¬ promising.mappings.size ≤ 0
        decide
      · cases he
    | @parent env outer hp =>
      obtain ⟨_ | i⟩ := env <;> cases hp
    | @expression id p o hp ho =>
      obtain ⟨_ | i⟩ := id
      · cases hp
        have hv : (form [.symbol "add", .integer 1, .integer 2]).Within promising.Has := by
          simp [form]
        exact hv _ ho
      · cases hp
    | @captured id p hp =>
      obtain ⟨_ | i⟩ := id
      · cases hp
        exact promising_has_env
      · cases hp
    | @result id p a o hp ha _ =>
      obtain ⟨_ | i⟩ := id
      · cases hp
        cases ha
      · cases hp
  parent env outer hp := by
    obtain ⟨_ | i⟩ := env <;> cases hp

theorem promising_unforced : promising.Unforced := by
  intro id
  obtain ⟨_ | i⟩ := id <;> rfl

theorem doubled_within : doubled.Within promising.Has := by
  simp [doubled, form]

end Prelude

/-- The promise is evaluated once by need and again and again by name, and doubling it gives
the same. -/
theorem doubled_either_way :
    (Prelude.quiet.Uniform ∧ Prelude.promising.Closed ∧ Prelude.promising.Unforced ∧
      Prelude.doubled.Within Prelude.promising.Has ∧ Prelude.promising.Has (.env ⟨0⟩)) ∧
      Prelude.quietMachine.AnswersByNeed Prelude.doubled ⟨0⟩ Prelude.promising
        (.success (.integer 6)) ∧
      (∃ a, Prelude.quietMachine.AnswersByName Prelude.doubled ⟨0⟩ Prelude.promising a) ∧
      ∀ a, Prelude.quietMachine.AnswersByName Prelude.doubled ⟨0⟩ Prelude.promising a →
        a = .success (.integer 6) := by
  obtain ⟨hagree, -, -⟩ := need_agrees_with_name Prelude.quietMachine Prelude.doubled ⟨0⟩
    Prelude.promising Prelude.quiet_uniform Prelude.promising_closed Prelude.promising_unforced
    Prelude.doubled_within Prelude.promising_has_env
  refine ⟨⟨Prelude.quiet_uniform, Prelude.promising_closed, Prelude.promising_unforced,
    Prelude.doubled_within, Prelude.promising_has_env⟩, Prelude.doubled_by_need,
    ⟨_, Prelude.doubled_by_name⟩, fun a hname => ?_⟩
  obtain ⟨hok, hvalue⟩ := hagree _ a Prelude.doubled_by_need hname
  obtain ⟨v, ok⟩ := a
  have hpaired := hvalue (.inl (Value.within_integer 6))
  cases hok
  cases hpaired
  rfl

/-- The conduct of natives that write no frame and no mapping and never raise. -/
def Conduct.unwriting : Conduct where
  asks
    | .bind .. | .write .. => False
    | _ => True
  hears _ _ := True
  raises _ := False

namespace Prelude

/-- Forces a value. -/
def fetch : Routine := fun params _ =>
  match params with
  | .pair _ v _ => Script.request (.force v)
  | _ => pure .failure

/-- Forces a value and gives its text. -/
def peek : Routine := fun params _ =>
  match params with
  | .pair _ v _ => do
    let _ ← Script.request (.force v)
    succeed (.string (← Script.request (.render v)))
  | _ => pure .failure

def peeking : Library := fun key =>
  if key = "peek" then peek
  else if key = "fetch" then fetch
  else if key = "list" then whole
  else fun _ _ => pure .failure

def peekingMachine : Machine := { machine with library := peeking }

/-- An environment with `x`, a promise of its value and a promise of a list that holds the
promise itself. -/
def peeked : Store where
  mappings := #[⟨[("peek", .native ⟨⟨0⟩, "peek", "peek", false⟩),
    ("fetch", .native ⟨⟨1⟩, "fetch", "fetch", false⟩),
    ("list", .native ⟨⟨2⟩, "list", "list", false⟩), ("x", .integer 3), ("t", .promise ⟨0⟩),
    ("u", .promise ⟨1⟩)]⟩]
  environments := #[⟨⟨0⟩, none⟩]
  promises := #[⟨.symbol "x", ⟨0⟩, none⟩, ⟨form [.symbol "list", .symbol "u"], ⟨0⟩, none⟩]
  marks := 3

theorem peeking_unwriting (key : String) (params : Value) (env : EnvId) :
    (peeking key params env).Obeys .unwriting fun _ => True := by
  unfold peeking
  split
  · unfold peek
    split
    · refine .bind (.request (E := fun _ => True) trivial fun _ _ => trivial) fun _ _ => ?_
      exact .bind (.request (E := fun _ => True) trivial fun _ _ => trivial) fun _ _ =>
        .pure trivial
    · exact .pure trivial
  · split
    · unfold fetch
      split
      · exact .request trivial fun _ _ => trivial
      · exact .pure trivial
    · split <;> exact .pure trivial

theorem peeked_unforced : peeked.Unforced := by
  intro id
  obtain ⟨_ | _ | i⟩ := id <;> rfl

/-- The list, after it has been stored. -/
def ownList : Value := .pair ⟨4⟩ (.promise ⟨1⟩) .nil

/-- The store in which the second promise has stored its list. -/
def listed : Store :=
  { peeked with
    promises := #[⟨.symbol "x", ⟨0⟩, none⟩,
      ⟨form [.symbol "list", .symbol "u"], ⟨0⟩, some (.success ownList)⟩]
    marks := 5 }

theorem ownList_unwritable (d : Nat) : listed.render d ownList = .error .tooDeep := by
  induction d using Nat.strongRecOn with
  | ind d ih =>
    match d with
    | 0 | 1 => rfl
    | d + 2 =>
      have hshown : listed.renderAt d .alone (listed.promise ⟨1⟩).shown = .error .tooDeep :=
        ih d (by omega)
      simp only [ownList, Store.render, Store.renderAt, Value.renderWith, hshown]
      rfl

/-- Applying the list needs its text. -/
def ownCall : Value := form [form [.symbol "fetch", .symbol "u"]]

theorem ownCall_head (d n k : Nat) :
    peekingMachine.callWithin forceOnceWith ⟨d + 8, n + 2, k⟩
      (.evaluate (form [.symbol "fetch", .symbol "u"]) ⟨0⟩) peeked =
      .ok (.success ownList) listed := rfl

theorem ownCall_stops (d n k : Nat) :
    peekingMachine.evaluateWithin forceOnceWith ⟨d + 9, n + 2, k⟩ ownCall ⟨0⟩ peeked =
      .error .tooDeep listed := by
  have hrender : EvalM.render (n + 2) ownList listed = .error .tooDeep listed := by
    unfold EvalM.render
    rw [ownList_unwritable]
    rfl
  refine EvalM.bind_error ?_
  refine (EvalM.bind_ok (ownCall_head d n k)).trans ?_
  exact EvalM.bind_error hrender

theorem ownCall_stopsAtText : peekingMachine.StopsAtText forceOnceWith ownCall ⟨0⟩ peeked := by
  refine ⟨9, fun d n k hd hn _ => ⟨.tooDeep, listed, ?_⟩⟩
  obtain ⟨d, rfl⟩ : ∃ e, d = e + 9 := ⟨d - 9, by omega⟩
  obtain ⟨n, rfl⟩ : ∃ l, n = l + 2 := ⟨n - 2, by omega⟩
  exact ownCall_stops d n k

theorem ownCall_by_name : peekingMachine.AnswersByName ownCall ⟨0⟩ peeked .failure :=
  ⟨12, 10, _, rfl⟩

end Prelude

/-- Texts tell need from name, though natives write nothing, raise nothing and compare
nothing. One that renders sees whether a promise has been forced. And the journal quotes
what cannot be applied: a list that holds its own promise has a text until the promise
is forced, and then it has none, so by need the call never completes. -/
theorem texts_tell_apart :
    ((∀ key params env, (Prelude.peeking key params env).Obeys .unwriting fun _ => True) ∧
      Prelude.peeked.Unforced) ∧
      (Prelude.peekingMachine.AnswersByNeed (form [.symbol "peek", .symbol "t"]) ⟨0⟩
          Prelude.peeked (.success (.string "(lazy: 3)")) ∧
        Prelude.peekingMachine.AnswersByName (form [.symbol "peek", .symbol "t"]) ⟨0⟩
          Prelude.peeked (.success (.string "(lazy: x)"))) ∧
      (¬ ∃ a, Prelude.peekingMachine.AnswersByNeed Prelude.ownCall ⟨0⟩ Prelude.peeked a) ∧
      Prelude.peekingMachine.AnswersByName Prelude.ownCall ⟨0⟩ Prelude.peeked .failure := by
  refine ⟨⟨Prelude.peeking_unwriting, Prelude.peeked_unforced⟩, ⟨⟨9, 10, ?_⟩, ⟨9, 10, ?_⟩⟩, ?_,
    Prelude.ownCall_by_name⟩
  · exact Prelude.eq_of_atom? (x := .inr "(lazy: 3)") (by decide +kernel)
  · exact Prelude.eq_of_atom? (x := .inr "(lazy: x)") (by decide +kernel)
  · rintro ⟨a, ha⟩
    obtain ⟨t, hreach⟩ := answersByNeed_iff.mp ha
    exact hreach.not_halts Prelude.ownCall_stopsAtText

end LispCore
