import LispCore.Proofs.ArgumentOrder
import LispCore.Proofs.DepthBound

/-! # Forms of `eval` are transparent

A form `(eval x . rest)` has its first argument evaluated where the form stands, and the
remaining arguments are left alone, whatever they are. So as long as `eval` stands for
its native, the form comes to what the expression comes to, two levels deeper: to the
same answer or error and with the same effects. What it adds is one record of the
journal if the answer is a failure (`eval_transparent`).

Forms around forms add up, since the meaning of `eval` is looked up from the outside
inwards before the expression is evaluated at all. In a list of arguments it is looked
up again for each of them, and there the arguments before must not have changed it
(`Machine.KeepsEval`). -/
namespace LispCore

/-! ## Forms -/

namespace Bootstrap

/-- The native that `eval` stands for at the outset. -/
def native (mark : Mark) : Native := ⟨mark, key, key, true⟩

/-- What a form has around its expression: the marks of its pairs, and the arguments that
are left alone. -/
structure Layer where
  form : Mark
  args : Mark
  rest : Value

/-- The arguments of the form around an expression. -/
def Layer.arguments (l : Layer) (x : Value) : Value := .pair l.args x l.rest

/-- The form around an expression. -/
def Layer.around (l : Layer) (x : Value) : Value := .pair l.form (.symbol key) (l.arguments x)

/-- Forms around an expression, the outermost first. -/
def nested (layers : List Layer) (x : Value) : Value := layers.foldr Layer.around x

/-- The record of a form whose expression failed. -/
def failed : Record := ⟨.application, .debug, "Native procedure eval reported failure"⟩

end Bootstrap

open Bootstrap (Layer nested)

/-- The name `eval` stands for the bootstrap native. -/
def Store.HasEval (s : Store) (env : EnvId) : Prop :=
  ∃ mark, s.lookup env Bootstrap.key = some (.native (Bootstrap.native mark))

namespace Machine

/-- The store with the records of `n` forms whose expression failed, if the level keeps
them. -/
def evalFailed (m : Machine) (n : Nat) (s : Store) : Store :=
  { s with records := s.records ++
      if Bootstrap.failed.kept m.level then Array.replicate n Bootstrap.failed else #[] }

/-- How `n` forms around an expression end if the expression ends in this way. -/
def throughEval (m : Machine) (n : Nat) :
    EStateM.Result Stop Store Answer → EStateM.Result Stop Store Answer
  | .ok a t => .ok a (if a.ok then t else m.evalFailed n t)
  | .error e t => .error e t

end Machine

section Throughs
variable (m : Machine)

theorem evalFailed_zero (s : Store) : m.evalFailed 0 s = s := by
  simp [Machine.evalFailed]

theorem noted_evalFailed (n : Nat) (s : Store) :
    (m.evalFailed n s).note m.level Bootstrap.failed = m.evalFailed (n + 1) s := by
  unfold Store.note Machine.evalFailed
  split
  · rw [Array.replicate_succ, Array.append_push]
  · rfl

theorem throughEval_zero (r : EStateM.Result Stop Store Answer) : m.throughEval 0 r = r := by
  cases r with
  | ok a t => simp [Machine.throughEval, evalFailed_zero]
  | error e t => rfl

theorem throughEval_error (n : Nat) (e : Stop) (t : Store) :
    m.throughEval n (.error e t) = .error e t := rfl

theorem throughEval_success (n : Nat) {a : Answer} (hok : a.ok = true) (t : Store) :
    m.throughEval n (.ok a t) = .ok a t := by
  simp [Machine.throughEval, hok]

theorem throughEval_failure (n : Nat) {a : Answer} (hno : a.ok = false) (t : Store) :
    m.throughEval n (.ok a t) = .ok a (m.evalFailed n t) := by
  simp [Machine.throughEval, hno]

/-- One more form around `n` of them. -/
theorem throughEval_succ (n : Nat) (r : EStateM.Result Stop Store Answer) :
    m.throughEval 1 (m.throughEval n r) = m.throughEval (n + 1) r := by
  cases r with
  | error e t => rfl
  | ok a t =>
    cases hok : a.ok with
    | true => simp only [throughEval_success m _ hok]
    | false =>
      simp only [throughEval_failure m _ hok]
      rw [← noted_evalFailed m 0, evalFailed_zero, noted_evalFailed]

end Throughs

/-! ## One form -/

section OneForm
variable {m : Machine} {env : EnvId} {s : Store} {mark : Mark}

/-- The call that finds out what `eval` stands for. -/
def Made.evalFound (mark : Mark) (env : EnvId) (s : Store) : Made :=
  .mk (.evaluate (.symbol Bootstrap.key) env) s
    (.ok (.success (.native (Bootstrap.native mark))) s) []

theorem traced_evalFound
    (heval : s.lookup env Bootstrap.key = some (.native (Bootstrap.native mark)))
    (d : Nat) : m.traced (d + 1) (.evaluate (.symbol Bootstrap.key) env) s =
      (.ok (.success (.native (Bootstrap.native mark))) s, [.evalFound mark env s]) := by
  have hstep : m.step d (m.traced d) (.evaluate (.symbol Bootstrap.key) env) s =
      (.ok (.success (.native (Bootstrap.native mark))) s, []) := by
    unfold Machine.step Machine.evaluateWith
    dsimp only
    rw [TraceM.read_bind, heval]
    rfl
  simp only [Machine.traced, TraceM.enclose, hstep]
  rfl

/-- The native has the first argument evaluated, and reports a failure. -/
theorem traced_evalApplied (hlib : m.library Bootstrap.key = Bootstrap.eval) (l : Layer) (x : Value)
    (d : Nat) : m.traced (d + 1) (.native (Bootstrap.native mark) (l.arguments x) env) s =
      (m.throughEval 1 (m.traced d (.evaluate x env) s).1,
        (m.traced d (.evaluate x env) s).2 ++
          [.mk (.native (Bootstrap.native mark) (l.arguments x) env) s
            (m.throughEval 1 (m.traced d (.evaluate x env) s).1)
            (m.traced d (.evaluate x env) s).2]) := by
  have hrun : m.step d (m.traced d) (.native (Bootstrap.native mark) (l.arguments x) env) s =
      (m.throughEval 1 (m.traced d (.evaluate x env) s).1, (m.traced d (.evaluate x env) s).2) := by
    rw [Machine.step, Machine.applyNativeWith]
    have hroutine : m.library (Bootstrap.native mark).routine (l.arguments x) env =
        Script.request (.evaluate x env) := by
      rw [Bootstrap.native, hlib]
      rfl
    rw [hroutine]
    rcases (m.traced d (.evaluate x env)).cases s with ⟨a, t, k, h⟩ | ⟨e, t, k, h⟩
    · have hask : m.runWith d (m.traced d) (Script.request (.evaluate x env)) s = (.ok a t, k) := by
        refine (TraceM.bind_ok h).trans ?_
        change (EStateM.Result.ok a t, k ++ []) = _
        rw [List.append_nil]
      have hreport : (liftM (m.reportFailure (Bootstrap.native mark) a) : TraceM Unit) t =
          (.ok () (if a.ok then t else m.evalFailed 1 t), []) := by
        change (m.reportFailure (Bootstrap.native mark) a t, []) = _
        rw [Machine.reportFailure, ← noted_evalFailed, evalFailed_zero]
        split <;> rfl
      rw [TraceM.bind_ok hask, TraceM.bind_ok hreport, h]
      change (_, k ++ ([] ++ [])) = _
      rw [List.append_nil, List.append_nil]
      rfl
    · have hask : m.runWith d (m.traced d) (Script.request (.evaluate x env)) s =
          (.error e t, k) := TraceM.bind_error h
      rw [TraceM.bind_error hask, h]
      rfl
  simp only [Machine.traced, TraceM.enclose, hrun]

/-- The form looks `eval` up and applies it. -/
theorem traced_around (hlib : m.library Bootstrap.key = Bootstrap.eval)
    (heval : s.lookup env Bootstrap.key = some (.native (Bootstrap.native mark))) (l : Layer)
    (x : Value) (d : Nat) :
    (m.traced (d + 2) (.evaluate (l.around x) env) s).1 =
        m.throughEval 1 (m.traced d (.evaluate x env) s).1 ∧
      (m.traced (d + 2) (.evaluate (l.around x) env) s).2.map Made.call =
        .evaluate (.symbol Bootstrap.key) env :: (m.traced d (.evaluate x env) s).2.map Made.call ++
          [.native (Bootstrap.native mark) (l.arguments x) env, .evaluate (l.around x) env] := by
  have hstep : m.step (d + 1) (m.traced (d + 1)) (.evaluate (l.around x) env) s =
      (m.throughEval 1 (m.traced d (.evaluate x env) s).1,
        [.evalFound mark env s] ++
          (m.traced (d + 1) (.native (Bootstrap.native mark) (l.arguments x) env) s).2) := by
    refine (TraceM.bind_ok (traced_evalFound heval d)).trans ?_
    change ((m.traced (d + 1) (.native (Bootstrap.native mark) (l.arguments x) env) s).1,
      [.evalFound mark env s] ++
        (m.traced (d + 1) (.native (Bootstrap.native mark) (l.arguments x) env) s).2) = _
    rw [traced_evalApplied hlib]
  rw [Machine.traced, TraceM.enclose, hstep, traced_evalApplied hlib]
  exact ⟨rfl, by simp [Made.evalFound, Made.call]⟩

/-- With fewer than two levels there is no form. -/
theorem evaluate_around_shallow {d : Nat} (hd : d < 2) (l : Layer) (x : Value) :
    m.evaluate d (l.around x) env s = .error .tooDeep s := by
  rcases d with _ | _ | d
  · rfl
  · rfl
  · omega

end OneForm

/-! ## Forms around forms -/

namespace Machine
variable (m : Machine) {d d' : Nat}

theorem perform_deeper (hd : d ≤ d') (c : Call) :
    Below (· = .tooDeep) Answer (m.perform d c) (m.perform d' c) :=
  m.perform_below (E := (· = .tooDeep)) hd (.inl rfl) (Nat.le_refl m.links) (.inr rfl) c

theorem evaluate_deeper (hd : d ≤ d') (e : Value) (env : EnvId) :
    Below (· = .tooDeep) Answer (m.evaluate d e env) (m.evaluate d' e env) :=
  m.perform_deeper hd (.evaluate e env)

theorem evaluateArguments_deeper (hd : d ≤ d') (args : Value) (env : EnvId) :
    Below (· = .tooDeep) Answer (m.evaluateArguments d args env)
      (m.evaluateArguments d' args env) :=
  m.perform_deeper hd (.arguments args env)

end Machine

section Nested
variable {m : Machine} {env : EnvId} {s : Store} {mark : Mark} {x : Value}

/-- The calls that the forms make when their expression has been evaluated, the innermost
form first. -/
def Bootstrap.closing (mark : Mark) (env : EnvId) (x : Value) : List Layer → List Call
  | [] => []
  | l :: layers => closing mark env x layers ++
      [.native (native mark) (l.arguments (nested layers x)) env,
        .evaluate (nested (l :: layers) x) env]

/-- **Forms come to what their expression comes to.** They are looked up one after the
other, then the expression is evaluated, and nothing else is called but the forms. -/
theorem traced_nested (hlib : m.library Bootstrap.key = Bootstrap.eval)
    (heval : s.lookup env Bootstrap.key = some (.native (Bootstrap.native mark)))
    (layers : List Layer) (d : Nat) :
    (m.traced (d + 2 * layers.length) (.evaluate (nested layers x) env) s).1 =
        m.throughEval layers.length (m.traced d (.evaluate x env) s).1 ∧
      (m.traced (d + 2 * layers.length) (.evaluate (nested layers x) env) s).2.map Made.call =
        .replicate layers.length (.evaluate (.symbol Bootstrap.key) env) ++
          (m.traced d (.evaluate x env) s).2.map Made.call ++
          Bootstrap.closing mark env x layers := by
  induction layers with
  | nil =>
    refine ⟨(throughEval_zero m _).symm, ?_⟩
    simp [nested, Bootstrap.closing]
  | cons l layers ih =>
    obtain ⟨hfst, hsnd⟩ := ih
    have houter := traced_around hlib heval l (nested layers x) (d + 2 * layers.length)
    rw [hfst, hsnd] at houter
    rw [List.length_cons, show d + 2 * (layers.length + 1) = d + 2 * layers.length + 2 by omega,
      ← throughEval_succ]
    refine ⟨houter.1, houter.2.trans ?_⟩
    simp [Bootstrap.closing, List.replicate_succ, nested]

theorem evaluate_nested (hlib : m.library Bootstrap.key = Bootstrap.eval) (heval : s.HasEval env)
    (layers : List Layer) (d : Nat) :
    m.evaluate (d + 2 * layers.length) (nested layers x) env s =
      m.throughEval layers.length (m.evaluate d x env s) := by
  obtain ⟨mark, heval⟩ := heval
  have hfst := (traced_nested hlib heval layers d (x := x)).1
  rwa [traced_fst, traced_fst] at hfst

theorem evaluate_nested_shallow (hlib : m.library Bootstrap.key = Bootstrap.eval)
    (heval : s.HasEval env) (layers : List Layer) {d : Nat} (hd : d < 2 * layers.length) :
    m.evaluate d (nested layers x) env s = .error .tooDeep s := by
  induction layers generalizing d with
  | nil => simp at hd
  | cons l layers ih =>
    rw [List.length_cons] at hd
    by_cases hshallow : d < 2
    · exact evaluate_around_shallow hshallow l _
    · obtain ⟨k, rfl⟩ : ∃ k, d = k + 2 := ⟨d - 2, by omega⟩
      have hinner := ih (d := k) (by omega)
      have houter := evaluate_nested hlib heval [l] k (x := nested layers x)
      rwa [hinner, throughEval_error] at houter

end Nested

/-! ## Lists of arguments -/

/-- The second list of arguments is the first with forms around its arguments, at most `k`
around each. -/
inductive Bootstrap.Wrapped (k : Nat) : Value → Value → Prop
  | argument (mark mark' : Mark) (x : Value) (layers : List Layer) {rest rest' : Value} :
      layers.length ≤ k → Wrapped k rest rest' →
      Wrapped k (.pair mark x rest) (.pair mark' (nested layers x) rest')
  | ending {v : Value} : v.tag ≠ .pair → Wrapped k v v

/-- Whenever it is the turn of an argument, `eval` stands for its native. -/
def Machine.KeepsEval (m : Machine) (env : EnvId) : (depth : Nat) → Value → Store → Prop
  | depth + 1, .pair _ x rest, s => s.HasEval env ∧
      ∀ a t, m.evaluate depth x env s = .ok a t → a.ok = true → m.KeepsEval env depth rest t
  | _, _, _ => True

section Arguments
variable {m : Machine} {depth : Nat} {env : EnvId} {s t : Store} {x : Value} {a : Answer}

theorem evaluateArguments_pair (mark : Mark) (rest : Value)
    (hx : m.evaluate depth x env s = .ok a t) (hok : a.ok = true) :
    m.evaluateArguments (depth + 1) (.pair mark x rest) env s =
      afterFirst a.value (m.evaluateArguments depth rest env t) := by
  refine (EvalM.bind_ok hx).trans ?_
  rw [if_pos hok]
  cases hrest : m.evaluateArguments depth rest env t with
  | ok tail u =>
    refine (EvalM.bind_ok hrest).trans ?_
    cases hsuccess : tail.ok <;> simp [afterFirst, hsuccess] <;> rfl
  | error e u => exact EvalM.bind_error hrest

theorem evaluateArguments_failed (mark : Mark) (rest : Value)
    (hx : m.evaluate depth x env s = .ok a t) (hno : a.ok = false) :
    m.evaluateArguments (depth + 1) (.pair mark x rest) env s = .ok .failure t := by
  refine (EvalM.bind_ok hx).trans ?_
  rw [hno]
  rfl

theorem evaluateArguments_stopped {e : Stop} (mark : Mark) (rest : Value)
    (hx : m.evaluate depth x env s = .error e t) :
    m.evaluateArguments (depth + 1) (.pair mark x rest) env s = .error e t :=
  EvalM.bind_error hx

theorem afterFirst_throughEval (v : Value) (n : Nat) (r : EStateM.Result Stop Store Answer) :
    afterFirst v (m.throughEval n r) = m.throughEval n (afterFirst v r) := by
  cases r with
  | error e t => rfl
  | ok a t =>
    cases hok : a.ok with
    | true => simp [afterFirst, Machine.throughEval, hok, Answer.success]
    | false => simp [afterFirst, Machine.throughEval, hok, Answer.failure]

end Arguments

/-! ## The same depth on both sides -/

/-- One of two outcomes, the first or the second, is that the depth was exhausted. -/
def Exhausted (first : Bool) (r r' : EStateM.Result Stop Store Answer) : Prop :=
  ∃ t, (if first then r else r') = .error .tooDeep t

/-- The second outcome is that of at most `k` forms around what ended with the first, unless
one of them, as told, is that the depth was exhausted. -/
def Machine.Transparent (m : Machine) (k : Nat) (first : Bool)
    (r r' : EStateM.Result Stop Store Answer) : Prop :=
  Exhausted first r r' ∨ ∃ n, n ≤ k ∧ r' = m.throughEval n r

section Depths
variable {m : Machine} {env : EnvId} {k : Nat}

theorem Machine.Transparent.of_below {x y : EvalM Answer} (h : Below (· = .tooDeep) Answer x y)
    (s : Store) : m.Transparent k true (x s) (y s) := by
  rcases h s with ⟨e, t, rfl, hdeep⟩ | hsame
  · exact .inl ⟨t, hdeep⟩
  · exact .inr ⟨0, Nat.zero_le k, by rw [hsame, throughEval_zero]⟩

/-- With two levels to spare for each form. -/
theorem evaluate_nested_spare (hlib : m.library Bootstrap.key = Bootstrap.eval) {d d' : Nat}
    (hd : d + 2 * k ≤ d') {layers : List Layer} (hlen : layers.length ≤ k) (x : Value) {s : Store}
    (heval : s.HasEval env) :
    m.Transparent k true (m.evaluate d x env s) (m.evaluate d' (nested layers x) env s) := by
  obtain ⟨n, rfl⟩ : ∃ n, d' = n + 2 * layers.length := ⟨d' - 2 * layers.length, by omega⟩
  rw [evaluate_nested hlib heval]
  rcases m.evaluate_deeper (show d ≤ n by omega) x env s with ⟨e, t, rfl, hdeep⟩ | hsame
  · exact .inl ⟨t, hdeep⟩
  · exact .inr ⟨layers.length, hlen, congrArg _ hsame⟩

/-- With the same depth. If it suffices for the forms, the expression has more than it needs. -/
theorem evaluate_nested_same (hlib : m.library Bootstrap.key = Bootstrap.eval) (d : Nat)
    {layers : List Layer} (hlen : layers.length ≤ k) (x : Value) {s : Store}
    (heval : s.HasEval env) :
    m.Transparent k false (m.evaluate d x env s) (m.evaluate d (nested layers x) env s) := by
  by_cases hd : d < 2 * layers.length
  · exact .inl ⟨s, evaluate_nested_shallow hlib heval layers hd⟩
  · obtain ⟨n, rfl⟩ : ∃ n, d = n + 2 * layers.length := ⟨d - 2 * layers.length, by omega⟩
    have hforms := evaluate_nested hlib heval layers n (x := x)
    rcases m.evaluate_deeper (show n ≤ n + 2 * layers.length by omega) x env s with
      ⟨e, t, rfl, hdeep⟩ | hsame
    · rw [hdeep, throughEval_error] at hforms
      exact .inl ⟨t, hforms⟩
    · exact .inr ⟨layers.length, hlen, hforms.trans (congrArg _ hsame.symm)⟩

/-- **Forms around arguments do not change the list of values**, if they do not change the
single ones. The induction goes along the two lists, in stores that are equal as long as
the arguments succeed. At each argument both lists have one level less, so that the second
keeps the levels that it has more. -/
theorem evaluateArguments_wrapped {d more : Nat} {first : Bool} (hmore : first = false → more = 0)
    (hone : ∀ d layers x s, layers.length ≤ k → s.HasEval env →
      m.Transparent k first (m.evaluate d x env s)
        (m.evaluate (d + more) (nested layers x) env s))
    (hend : ∀ d v s, m.Transparent k first (m.evaluateArguments d v env s)
      (m.evaluateArguments (d + more) v env s))
    {args args' : Value} (hwrapped : Bootstrap.Wrapped k args args') {s : Store}
    (hkept : m.KeepsEval env d args s) :
    m.Transparent k first (m.evaluateArguments d args env s)
      (m.evaluateArguments (d + more) args' env s) := by
  induction hwrapped generalizing d s with
  | ending => exact hend d _ s
  | argument mark mark' x layers hlen _ ih =>
    obtain _ | d := d
    · refine .inl ⟨s, ?_⟩
      cases first with
      | true => rfl
      | false => rw [hmore rfl]; rfl
    rw [Nat.add_right_comm]
    rcases hone d layers x s hlen hkept.1 with ⟨t, hdeep⟩ | ⟨n, hn, hx'⟩
    · refine .inl ⟨t, ?_⟩
      cases first with
      | true => exact evaluateArguments_stopped mark _ hdeep
      | false => exact evaluateArguments_stopped mark' _ hdeep
    · cases hx : m.evaluate d x env s with
      | error e t =>
        rw [hx] at hx'
        refine .inr ⟨0, Nat.zero_le k, ?_⟩
        rw [evaluateArguments_stopped mark _ hx, evaluateArguments_stopped mark' _ hx']
        rfl
      | ok a t =>
        rw [hx] at hx'
        cases hok : a.ok with
        | true =>
          rw [throughEval_success m _ hok] at hx'
          rw [evaluateArguments_pair mark _ hx hok, evaluateArguments_pair mark' _ hx' hok]
          rcases ih (hkept.2 a t hx hok) with ⟨u, hdeep⟩ | ⟨n, hn, hrest⟩
          · refine .inl ⟨u, ?_⟩
            cases first with
            | true => exact congrArg (afterFirst a.value) hdeep
            | false => exact congrArg (afterFirst a.value) hdeep
          · exact .inr ⟨n, hn, by rw [hrest, afterFirst_throughEval]⟩
        | false =>
          rw [throughEval_failure m _ hok] at hx'
          refine .inr ⟨n, hn, ?_⟩
          rw [evaluateArguments_failed mark _ hx hok, evaluateArguments_failed mark' _ hx' hok,
            throughEval_failure m _ rfl]

end Depths

/-! ## Main result -/

/-- **Forms of `eval` are transparent.** Where `eval` stands for its native, forms around an
expression, with any arguments behind it, come to its answer or error and leave the same
store, but for one record for each form if the answer is a failure. They take two levels
each, so with enough depth for the expression and with these the outcome is the one
that the expression has at the same depth. The arguments behind the expression are not
evaluated: besides the calls of the expression, a form looks `eval` up and applies it.

In a list of arguments any number of forms may be put around each argument, as long as no
argument changes what `eval` stands for before the next one: the outcome is the same, but
for the records of the forms around the one that fails. -/
theorem eval_transparent (m : Machine) (hlib : m.library Bootstrap.key = Bootstrap.eval)
    (env : EnvId) (s : Store) :
    (∀ mark, s.lookup env Bootstrap.key = some (.native (Bootstrap.native mark)) →
      ∀ layers x,
        (∀ d, m.evaluate (d + 2 * layers.length) (nested layers x) env s =
            m.throughEval layers.length (m.evaluate d x env s) ∧
          (m.traced (d + 2 * layers.length) (.evaluate (nested layers x) env) s).2.map Made.call =
            .replicate layers.length (.evaluate (.symbol Bootstrap.key) env) ++
              (m.traced d (.evaluate x env) s).2.map Made.call ++
              Bootstrap.closing mark env x layers) ∧
        (∀ d, d < 2 * layers.length → m.evaluate d (nested layers x) env s = .error .tooDeep s) ∧
        ∀ d d', WithinDepth (m.evaluate d x env s) → d + 2 * layers.length ≤ d' →
          m.evaluate d' (nested layers x) env s =
            m.throughEval layers.length (m.evaluate d' x env s)) ∧
      ∀ k args args', Bootstrap.Wrapped k args args' → ∀ d, m.KeepsEval env d args s →
        (∀ d', WithinDepth (m.evaluateArguments d args env s) → d + 2 * k ≤ d' →
          ∃ n, n ≤ k ∧ m.evaluateArguments d' args' env s =
            m.throughEval n (m.evaluateArguments d' args env s)) ∧
        (WithinDepth (m.evaluateArguments d args' env s) →
          ∃ n, n ≤ k ∧ m.evaluateArguments d args' env s =
            m.throughEval n (m.evaluateArguments d args env s)) := by
  refine ⟨fun mark heval layers x => ⟨fun d => ?_, fun d hd => ?_, fun d d' hwithin hd => ?_⟩, ?_⟩
  · exact ⟨evaluate_nested hlib ⟨mark, heval⟩ layers d, (traced_nested hlib heval layers d).2⟩
  · exact evaluate_nested_shallow hlib ⟨mark, heval⟩ layers hd
  · obtain ⟨n, rfl⟩ : ∃ n, d' = n + 2 * layers.length := ⟨d' - 2 * layers.length, by omega⟩
    rw [evaluate_nested hlib ⟨mark, heval⟩,
      hwithin.eq_of_below (m.evaluate_deeper (show d ≤ n by omega) x env),
      hwithin.eq_of_below (m.evaluate_deeper (show d ≤ n + 2 * layers.length by omega) x env)]
  · intro k args args' hwrapped d hkept
    refine ⟨fun d' hwithin hd => ?_, fun hwithin => ?_⟩
    · obtain ⟨more, rfl⟩ : ∃ more, d' = d + more := ⟨d' - d, by omega⟩
      have hsame :=
        hwithin.eq_of_below (m.evaluateArguments_deeper (show d ≤ d + more by omega) args env)
      have hlist : m.Transparent k true (m.evaluateArguments d args env s)
          (m.evaluateArguments (d + more) args' env s) :=
        evaluateArguments_wrapped (by intro h; cases h)
          (fun d _ x _ hlen heval => evaluate_nested_spare hlib (by omega) hlen x heval)
          (fun d v => .of_below (m.evaluateArguments_deeper (by omega) v env)) hwrapped hkept
      rw [hsame]
      exact hlist.resolve_left fun ⟨t, hdeep⟩ => hwithin t hdeep
    · have hlist : m.Transparent k false (m.evaluateArguments d args env s)
          (m.evaluateArguments (d + 0) args' env s) :=
        evaluateArguments_wrapped (fun _ => rfl)
          (fun d _ x _ hlen heval => evaluate_nested_same hlib d hlen x heval)
          (fun d v s => .inr ⟨0, Nat.zero_le k, (throughEval_zero m _).symm⟩) hwrapped hkept
      exact hlist.resolve_left fun ⟨t, hdeep⟩ => hwithin t hdeep

namespace Prelude

/-- A machine with `eval` that keeps all records. -/
def debugMachine : Machine := { machine with library := Bootstrap.extend library, level := 10 }

/-- An environment with `eval` and natives that fail and print. -/
def evalStore : Store where
  mappings := #[(frame ["fail", "tick"]).insert Bootstrap.key (.native (Bootstrap.native ⟨0⟩))]
  environments := #[⟨⟨0⟩, none⟩]

/-- Two forms: behind the expression of the first stands no list, and behind that of the
second something that would print. -/
def twoLayers : List Layer :=
  [⟨⟨0⟩, ⟨0⟩, .integer 3⟩, ⟨⟨0⟩, ⟨0⟩, form [form [.symbol "tick", .integer 2]]⟩]

/-- Prints a number. -/
def printOne : Value := form [.symbol "tick", .integer 1]

/-- A call that fails. -/
def failCall : Value := form [.symbol "fail"]

/-- What is left when a number has been printed. -/
def printedStore : Store := { evalStore with marks := 1, effects := #[.integer 1] }

/-- The record of the native that fails. -/
def failReported : Record := ⟨.application, .debug, "Native procedure fail reported failure"⟩

/-- The arguments that print, fail and would print again. -/
def threeArguments : Value := form [printOne, failCall, printOne]

/-- The same with forms around the first two. -/
def wrappedArguments : Value :=
  form [nested twoLayers printOne, nested twoLayers failCall, printOne]

theorem threeArguments_wrapped : Bootstrap.Wrapped 2 threeArguments wrappedArguments := by
  have hlast : Bootstrap.Wrapped 2 (form [printOne]) (form [printOne]) :=
    .argument _ _ printOne [] (by decide) (.ending (by decide))
  have hfailing : Bootstrap.Wrapped 2 (form [failCall, printOne])
      (form [nested twoLayers failCall, printOne]) :=
    .argument _ _ failCall twoLayers (by decide) hlast
  exact .argument _ _ printOne twoLayers (by decide) hfailing

end Prelude

/-- Two forms around an expression that fails give its answer and two more records, and print
nothing. In a list of arguments forms around the one that prints and the one that fails
change neither what is printed nor that the list fails. -/
theorem twoLayers_transparent :
    (Prelude.debugMachine.library Bootstrap.key = Bootstrap.eval ∧
        Prelude.evalStore.lookup ⟨0⟩ Bootstrap.key = some (.native (Bootstrap.native ⟨0⟩))) ∧
      (∃ t, Prelude.debugMachine.evaluate 7 (nested Prelude.twoLayers Prelude.failCall) ⟨0⟩
            Prelude.evalStore = .ok ⟨.string "boom", false⟩ t ∧
          t.records = #[Prelude.failReported, Bootstrap.failed, Bootstrap.failed] ∧
          t.effects = #[]) ∧
      ∃ n t, Prelude.debugMachine.evaluateArguments 9 Prelude.wrappedArguments ⟨0⟩
          Prelude.evalStore = .ok .failure t ∧
        t.records.toList = Prelude.failReported :: .replicate n Bootstrap.failed ∧
        t.effects = #[.integer 1] := by
  have hlib : Prelude.debugMachine.library Bootstrap.key = Bootstrap.eval := rfl
  have heval : Prelude.evalStore.lookup ⟨0⟩ Bootstrap.key =
      some (.native (Bootstrap.native ⟨0⟩)) := rfl
  have hprinted : Prelude.printedStore.lookup ⟨0⟩ Bootstrap.key =
      some (.native (Bootstrap.native ⟨0⟩)) := rfl
  have htransparent := eval_transparent Prelude.debugMachine hlib ⟨0⟩ Prelude.evalStore
  refine ⟨⟨hlib, heval⟩, ?_, ?_⟩
  · have hfail : Prelude.debugMachine.evaluate 3 Prelude.failCall ⟨0⟩ Prelude.evalStore =
        .ok ⟨.string "boom", false⟩ (Prelude.evalStore.note 10 Prelude.failReported) := rfl
    have hforms := ((htransparent.1 ⟨0⟩ heval Prelude.twoLayers Prelude.failCall).1 3).1
    rw [hfail] at hforms
    exact ⟨_, hforms, rfl, rfl⟩
  · have hprint : Prelude.debugMachine.evaluate 4 Prelude.printOne ⟨0⟩ Prelude.evalStore =
        .ok (.success (.integer 1)) Prelude.printedStore := rfl
    have hfail : Prelude.debugMachine.evaluate 3 Prelude.failCall ⟨0⟩ Prelude.printedStore =
        .ok ⟨.string "boom", false⟩ (Prelude.printedStore.note 10 Prelude.failReported) := rfl
    have hlist : ∀ d, d = 5 ∨ d = 9 →
        Prelude.debugMachine.evaluateArguments d Prelude.threeArguments ⟨0⟩ Prelude.evalStore =
          .ok .failure (Prelude.printedStore.note 10 Prelude.failReported) := by
      rintro d (rfl | rfl) <;> rfl
    have hkept : Prelude.debugMachine.KeepsEval ⟨0⟩ 5 Prelude.threeArguments Prelude.evalStore := by
      refine ⟨⟨_, heval⟩, fun a t hone _ => ?_⟩
      rw [hprint] at hone
      cases hone
      refine ⟨⟨_, hprinted⟩, fun a t htwo hok => ?_⟩
      rw [hfail] at htwo
      cases htwo
      cases hok
    obtain ⟨n, -, hwrapped⟩ := (htransparent.2 2 _ _ Prelude.threeArguments_wrapped 5 hkept).1 9
      (by rw [hlist 5 (.inl rfl)]; exact nofun) (by decide)
    rw [hlist 9 (.inr rfl), throughEval_failure _ _ rfl] at hwrapped
    refine ⟨n, _, hwrapped, ?_, rfl⟩
    have hlevel : Bootstrap.failed.kept Prelude.debugMachine.level = true := rfl
    simp only [Machine.evalFailed, hlevel, if_true, Array.toList_append, Array.toList_replicate]
    rfl

end LispCore
