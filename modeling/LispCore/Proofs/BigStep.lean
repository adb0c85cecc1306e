import LispCore.Proofs.Limits

/-! # The rules of the language

What an expression means, without depths, links or machines: `Derives` gives one
rule for each way in which an expression, a list of arguments, a promise, a call
or a native can come to its answer, with the store before and after. The rules
are those of a call-by-value language with promises. Whatever the evaluator
detects itself answers nil without success, and leaves a note.

Three of these notes quote expressions. Which texts may stand for a value is a
parameter of the rules, `quote`: with `Shows` it is the text that rendering gives,
so that a rule with an unwritable quotation does not apply, and with a `Quotation`
every value has a text and no rule is held up by its note.

`Task.run` is what the evaluator does for each kind of task, and `run_sound`
says that all it answers is derivable. -/
namespace LispCore

/-! ## Parameters by position -/

/-- The first `n` arguments, filled up with nil. -/
def padded (n : Nat) (args : List Value) : List Value :=
  args.take n ++ .replicate (n - args.length) .nil

namespace Closure

/-- What a call binds: the names to the arguments in their order. -/
def bindings (c : Closure) (params : Value) : Bindings Value :=
  .ofList (c.params.zip (padded c.params.length params.elements))

/-- The parameters are a proper list of one argument for each name. -/
def Fits (c : Closure) (params : Value) : Prop :=
  params.ending = .nil ∧ params.elements.length = c.params.length

/-- The note on parameters that do not fit. -/
def misfitText (c : Closure) (params : Value) : String :=
  "Arity mismatch for " ++ c.describe ++ ": " ++
    toString (c.params.length - params.elements.length) ++ " missing, surplus=" ++
      (if params.ending.isNil && decide (params.elements.length ≤ c.params.length) then "False"
        else "True")

end Closure

theorem isNil_iff {v : Value} : v.isNil = true ↔ v = .nil := by
  cases v <;> simp [Value.isNil]

theorem padded_cons (n : Nat) (first : Value) (args : List Value) :
    padded (n + 1) (first :: args) = first :: padded n args := by
  simp [padded]

theorem padded_nil (n : Nat) : padded (n + 1) [] = .nil :: padded n [] := by
  simp [padded, List.replicate_succ]

theorem length_padded (n : Nat) (args : List Value) : (padded n args).length = n := by
  simp only [padded, List.length_append, List.length_take, List.length_replicate]
  omega

theorem matchParams_frame (names : List String) (params : Value) (frame : Bindings Value) :
    (matchParams names params frame).frame =
      (names.zip (padded names.length params.elements)).foldl
        (fun b e => b.insert e.1 e.2) frame := by
  induction names generalizing params frame with
  | nil => rfl
  | cons name names ih =>
    cases params with
    | pair mark first rest =>
      rw [matchParams, ih, List.length_cons, Value.elements_pair, padded_cons]
      rfl
    | _ =>
      simp only [matchParams, ih, Value.elements, List.length_cons, padded_nil]
      rfl

theorem matchParams_missing (names : List String) (params : Value) (frame : Bindings Value) :
    (matchParams names params frame).missing = names.length - params.elements.length := by
  induction names generalizing params frame with
  | nil => simp [matchParams]
  | cons name names ih =>
    cases params with
    | pair mark first rest => simp [matchParams, ih]
    | _ => simp [matchParams, ih, Value.elements]

theorem matchParams_remaining (names : List String) (params : Value) (frame : Bindings Value) :
    (matchParams names params frame).remaining.isNil =
      (params.ending.isNil && decide (params.elements.length ≤ names.length)) := by
  induction names generalizing params frame with
  | nil =>
    cases params with
    | pair mark first rest => simp [matchParams, Value.isNil]
    | _ => simp [matchParams, Value.ending, Value.elements]
  | cons name names ih =>
    cases params with
    | pair mark first rest => simp [matchParams, ih]
    | _ => simp [matchParams, ih, Value.ending, Value.elements]

theorem matchParams_exact (c : Closure) (params : Value) :
    (matchParams c.params params ∅).exact = true ↔ c.Fits params := by
  rw [Matching.exact, matchParams_missing, matchParams_remaining]
  simp only [Closure.Fits, Bool.and_eq_true, beq_iff_eq, decide_eq_true_eq, isNil_iff]
  constructor
  · rintro ⟨hmissing, hend, hle⟩
    exact ⟨hend, by omega⟩
  · rintro ⟨hend, hlen⟩
    exact ⟨by omega, hend, by omega⟩

/-! ## Tasks and rules -/

/-- What there is to be answered in the course of an evaluation. -/
inductive Task where
  | call (c : Call)
  /-- The application of the value of a head. -/
  | apply (expression callee args : Value) (env : EnvId)
  /-- The value at the end of a chain of promises. -/
  | resolve (v : Value)
  | script (x : Script Answer)

/-- The text of a value, as rendering gives it when it may go deep enough. -/
def Shows (s : Store) (v : Value) (text : String) : Prop := ∃ depth, s.render depth v = .ok text

/-- The store with a debugging note, if the level keeps it. -/
def Machine.noted (m : Machine) (source : Source) (text : String) (s : Store) : Store :=
  s.note m.level ⟨source, .debug, text⟩

/-- What serves the requests that concern the store alone. -/
inductive Acts : (r : Request) → Store → r.Reply → Store → Prop
  | chain (env : EnvId) (s : Store) : Acts (.chain env) s (s.chain env) s
  | lookup (env : EnvId) (name : String) (s : Store) :
      Acts (.lookup env name) s (s.lookup env name) s
  | bind (env : EnvId) (name : String) (v : Value) (s : Store) :
      Acts (.bind env name v) s () (s.bind env name v)
  | newChild (env : EnvId) (s : Store) :
      Acts (.newChild env) s (s.newChild env ∅).1 (s.newChild env ∅).2
  | newMapping (s : Store) : Acts .newMapping s (s.newMapping ∅).1 (s.newMapping ∅).2
  | read (id : MappingId) (name : String) (s : Store) :
      Acts (.read id name) s ((s.mapping id).find? name) s
  | write (id : MappingId) (name : String) (v : Value) (s : Store) :
      Acts (.write id name v) s () (s.write id name v)
  | newPromise (e : Value) (env : EnvId) (s : Store) :
      Acts (.newPromise e env) s (s.newPromise e env).1 (s.newPromise e env).2
  | newMark (s : Store) : Acts .newMark s s.newMark.1 s.newMark.2
  | emit (v : Value) (s : Store) : Acts (.emit v) s () (s.emit v)
  | effects (s : Store) : Acts .effects s s.effects s
  | render {v : Value} {s : Store} {text : String} : Shows s v text → Acts (.render v) s text s

/-- The rules: a task in a store has an answer and leaves a store. -/
inductive Derives (m : Machine) (quote : Store → Value → String → Prop) :
    Task → Store → Answer → Store → Prop
  /- Expressions. -/
  | bound {name : String} {env : EnvId} {s : Store} {v : Value} : s.lookup env name = some v →
      Derives m quote (.call (.evaluate (.symbol name) env)) s (.success v) s
  | unbound {name : String} {env : EnvId} {s : Store} : s.lookup env name = none →
      Derives m quote (.call (.evaluate (.symbol name) env)) s .failure
        (m.noted .evaluator ("Unbound symbol " ++ name) s)
  | apply {mark : Mark} {head args : Value} {env : EnvId} {s t u : Store} {callee a : Answer} :
      Derives m quote (.call (.evaluate head env)) s callee t → callee.ok = true →
      Derives m quote (.apply (.pair mark head args) callee.value args env) t a u →
      Derives m quote (.call (.evaluate (.pair mark head args) env)) s a u
  | headFails {mark : Mark} {head args : Value} {env : EnvId} {s t : Store} {callee : Answer}
      {text : String} :
      Derives m quote (.call (.evaluate head env)) s callee t → callee.ok = false →
      quote t (.pair mark head args) text →
      Derives m quote (.call (.evaluate (.pair mark head args) env)) s .failure
        (m.noted .evaluator ("Callee failed to evaluate in " ++ text) t)
  | promise {id : PromiseId} {env : EnvId} {s t : Store} {a : Answer} :
      Derives m quote (.call (.force id)) s a t →
      Derives m quote (.call (.evaluate (.promise id) env)) s a t
  | itself {e : Value} {env : EnvId} {s : Store} :
      e.tag ≠ .symbol → e.tag ≠ .pair → e.tag ≠ .promise →
      Derives m quote (.call (.evaluate e env)) s (.success e) s
  /- Calls. -/
  | lazyNative {e args : Value} {p : Native} {env : EnvId} {s t : Store} {a : Answer} :
      p.isLazy = true → Derives m quote (.call (.native p args env)) s a t →
      Derives m quote (.apply e (.native p) args env) s a t
  | eagerNative {e args : Value} {p : Native} {env : EnvId} {s t u : Store} {params a : Answer} :
      p.isLazy = false → Derives m quote (.call (.arguments args env)) s params t → params.ok = true →
      Derives m quote (.call (.native p params.value env)) t a u →
      Derives m quote (.apply e (.native p) args env) s a u
  | nativeUnmet {e args : Value} {p : Native} {env : EnvId} {s t : Store} {params : Answer} :
      p.isLazy = false → Derives m quote (.call (.arguments args env)) s params t → params.ok = false →
      Derives m quote (.apply e (.native p) args env) s .failure t
  | closure {e args body : Value} {mark : Mark} {names : List String} {home env : EnvId}
      {isLazy : Bool} {s t u : Store} {params a : Answer} :
      Derives m quote (.call (.parameters isLazy args env)) s params t → params.ok = true →
      Derives m quote (.call (.closure ⟨mark, names, body, home, isLazy⟩ params.value)) t a u →
      Derives m quote (.apply e (.closure mark names body home isLazy) args env) s a u
  | closureUnmet {e args body : Value} {mark : Mark} {names : List String} {home env : EnvId}
      {isLazy : Bool} {s t : Store} {params : Answer} :
      Derives m quote (.call (.parameters isLazy args env)) s params t → params.ok = false →
      Derives m quote (.apply e (.closure mark names body home isLazy) args env) s .failure t
  | notProcedure {e callee args : Value} {env : EnvId} {s : Store} {shown whole : String} :
      callee.tag ≠ .native → callee.tag ≠ .closure → quote s callee shown → quote s e whole →
      Derives m quote (.apply e callee args env) s .failure
        (m.noted .evaluator ("Not a procedure: " ++ shown ++ " in " ++ whole) s)
  /- Evaluated arguments, from left to right. -/
  | noArguments {env : EnvId} {s : Store} :
      Derives m quote (.call (.arguments .nil env)) s (.success .nil) s
  | argument {mark : Mark} {first rest : Value} {env : EnvId} {s t u : Store}
      {head tail : Answer} :
      Derives m quote (.call (.evaluate first env)) s head t → head.ok = true →
      Derives m quote (.call (.arguments rest env)) t tail u → tail.ok = true →
      Derives m quote (.call (.arguments (.pair mark first rest) env)) s
        (.success (u.newPair head.value tail.value).1) (u.newPair head.value tail.value).2
  | argumentFails {mark : Mark} {first rest : Value} {env : EnvId} {s t : Store} {head : Answer} :
      Derives m quote (.call (.evaluate first env)) s head t → head.ok = false →
      Derives m quote (.call (.arguments (.pair mark first rest) env)) s .failure t
  | argumentsFail {mark : Mark} {first rest : Value} {env : EnvId} {s t u : Store}
      {head tail : Answer} :
      Derives m quote (.call (.evaluate first env)) s head t → head.ok = true →
      Derives m quote (.call (.arguments rest env)) t tail u → tail.ok = false →
      Derives m quote (.call (.arguments (.pair mark first rest) env)) s .failure u
  | improper {env : EnvId} {tail : Value} {s : Store} {text : String} :
      tail.tag ≠ .nil → tail.tag ≠ .pair → quote s tail text →
      Derives m quote (.call (.arguments tail env)) s .failure
        (m.noted .evaluator ("Improper argument list tail: " ++ text) s)
  /- Deferred arguments, one promise each, the last one first. -/
  | noDeferred {env : EnvId} {s : Store} :
      Derives m quote (.call (.deferred .nil env)) s (.success .nil) s
  | defer {mark : Mark} {first rest : Value} {env : EnvId} {s t : Store} {tail : Answer} :
      Derives m quote (.call (.deferred rest env)) s tail t → tail.ok = true →
      Derives m quote (.call (.deferred (.pair mark first rest) env)) s
        (.success ((t.newPromise first env).2.newPair (.promise (t.newPromise first env).1)
          tail.value).1)
        ((t.newPromise first env).2.newPair (.promise (t.newPromise first env).1) tail.value).2
  | deferFails {mark : Mark} {first rest : Value} {env : EnvId} {s t : Store} {tail : Answer} :
      Derives m quote (.call (.deferred rest env)) s tail t → tail.ok = false →
      Derives m quote (.call (.deferred (.pair mark first rest) env)) s .failure t
  | improperDeferred {env : EnvId} {tail : Value} {s : Store} {text : String} :
      tail.tag ≠ .nil → tail.tag ≠ .pair → quote s tail text →
      Derives m quote (.call (.deferred tail env)) s .failure
        (m.noted .evaluator ("Improper argument list tail: " ++ text) s)
  /- Promises. -/
  | stored {id : PromiseId} {s : Store} {a : Answer} : (s.promise id).memo = some a →
      Derives m quote (.call (.force id)) s a s
  | fresh {id : PromiseId} {s t : Store} {a : Answer} : (s.promise id).memo = none →
      Derives m quote (.call (.evaluate (s.promise id).expression (s.promise id).env)) s a t →
      Derives m quote (.call (.force id)) s a (t.memoise id a)
  | resolved {v : Value} {s : Store} : v.tag ≠ .promise →
      Derives m quote (.resolve v) s (.success v) s
  | chainFails {id : PromiseId} {s t : Store} {a : Answer} :
      Derives m quote (.call (.force id)) s a t → a.ok = false →
      Derives m quote (.resolve (.promise id)) s a t
  | follow {id : PromiseId} {s t u : Store} {a b : Answer} :
      Derives m quote (.call (.force id)) s a t → a.ok = true →
      Derives m quote (.resolve a.value) t b u →
      Derives m quote (.resolve (.promise id)) s b u
  /- Procedures. -/
  | body {c : Closure} {params : Value} {s t : Store} {a : Answer} :
      (m.strictArity = true → c.Fits params) →
      Derives m quote (.call (.evaluate c.body (s.newChild c.env (c.bindings params)).1))
        (s.newChild c.env (c.bindings params)).2 a t →
      Derives m quote (.call (.closure c params)) s a t
  | misfit {c : Closure} {params : Value} {s : Store} :
      m.strictArity = true → ¬ c.Fits params →
      Derives m quote (.call (.closure c params)) s .failure
        (m.noted .application (c.misfitText params) (s.newChild c.env (c.bindings params)).2)
  | native {p : Native} {params : Value} {env : EnvId} {s t : Store} {a : Answer} :
      Derives m quote (.script (m.library p.routine params env)) s a t → a.ok = true →
      Derives m quote (.call (.native p params env)) s a t
  | nativeFails {p : Native} {params : Value} {env : EnvId} {s t : Store} {a : Answer} :
      Derives m quote (.script (m.library p.routine params env)) s a t → a.ok = false →
      Derives m quote (.call (.native p params env)) s a
        (m.noted .application ("Native procedure " ++ p.name ++ " reported failure") t)
  /- What a native does. -/
  | done {a : Answer} {s : Store} : Derives m quote (.script (.done a)) s a s
  | askEvaluate {e : Value} {env : EnvId} {next : Answer → Script Answer} {s t u : Store}
      {a b : Answer} :
      Derives m quote (.call (.evaluate e env)) s a t → Derives m quote (.script (next a)) t b u →
      Derives m quote (.script (.ask (.evaluate e env) next)) s b u
  | askForce {v : Value} {next : Answer → Script Answer} {s t u : Store} {a b : Answer} :
      Derives m quote (.resolve v) s a t → Derives m quote (.script (next a)) t b u →
      Derives m quote (.script (.ask (.force v) next)) s b u
  | askClosure {c : Closure} {params : Value} {next : Answer → Script Answer} {s t u : Store}
      {a b : Answer} :
      Derives m quote (.call (.closure c params)) s a t → Derives m quote (.script (next a)) t b u →
      Derives m quote (.script (.ask (.applyClosure c params) next)) s b u
  | askNative {p : Native} {params : Value} {env : EnvId} {next : Answer → Script Answer}
      {s t u : Store} {a b : Answer} :
      Derives m quote (.call (.native p params env)) s a t →
      Derives m quote (.script (next a)) t b u →
      Derives m quote (.script (.ask (.applyNative p params env) next)) s b u
  | act {r : Request} {reply : r.Reply} {next : r.Reply → Script Answer} {s t u : Store}
      {b : Answer} :
      Acts r s reply t → Derives m quote (.script (next reply)) t b u →
      Derives m quote (.script (.ask r next)) s b u

/-- More texts that may be quoted, more is derivable. -/
theorem Derives.mono {m : Machine} {quote quote' : Store → Value → String → Prop}
    (hq : ∀ s v text, quote s v text → quote' s v text) {task : Task} {s t : Store} {a : Answer}
    (h : Derives m quote task s a t) : Derives m quote' task s a t := by
  induction h with
  | headFails _ hok hquote ih => exact .headFails ih hok (hq _ _ _ hquote)
  | notProcedure hn hc hshown hwhole =>
    exact .notProcedure hn hc (hq _ _ _ hshown) (hq _ _ _ hwhole)
  | improper hn hp hquote => exact .improper hn hp (hq _ _ _ hquote)
  | improperDeferred hn hp hquote => exact .improperDeferred hn hp (hq _ _ _ hquote)
  | bound h => exact .bound h
  | unbound h => exact .unbound h
  | apply _ hok _ ih ih' => exact .apply ih hok ih'
  | promise _ ih => exact .promise ih
  | itself hs hp hd => exact .itself hs hp hd
  | lazyNative hl _ ih => exact .lazyNative hl ih
  | eagerNative hl _ hok _ ih ih' => exact .eagerNative hl ih hok ih'
  | nativeUnmet hl _ hok ih => exact .nativeUnmet hl ih hok
  | closure _ hok _ ih ih' => exact .closure ih hok ih'
  | closureUnmet _ hok ih => exact .closureUnmet ih hok
  | noArguments => exact .noArguments
  | argument _ hok _ hok' ih ih' => exact .argument ih hok ih' hok'
  | argumentFails _ hok ih => exact .argumentFails ih hok
  | argumentsFail _ hok _ hok' ih ih' => exact .argumentsFail ih hok ih' hok'
  | noDeferred => exact .noDeferred
  | defer _ hok ih => exact .defer ih hok
  | deferFails _ hok ih => exact .deferFails ih hok
  | stored h => exact .stored h
  | fresh h _ ih => exact .fresh h ih
  | resolved h => exact .resolved h
  | chainFails _ hok ih => exact .chainFails ih hok
  | follow _ hok _ ih ih' => exact .follow ih hok ih'
  | body h _ ih => exact .body h ih
  | misfit hs hf => exact .misfit hs hf
  | native _ hok ih => exact .native ih hok
  | nativeFails _ hok ih => exact .nativeFails ih hok
  | done => exact .done
  | askEvaluate _ _ ih ih' => exact .askEvaluate ih ih'
  | askForce _ _ ih ih' => exact .askForce ih ih'
  | askClosure _ _ ih ih' => exact .askClosure ih ih'
  | askNative _ _ ih ih' => exact .askNative ih ih'
  | act hact _ ih => exact .act hact ih

/-! ## What the evaluator answers is derivable -/

/-- How the evaluator goes about a task, with a depth left and a number of links
to follow at the outermost chain. -/
def Task.run (m : Machine) (depth links : Nat) : Task → EvalM Answer
  | .call c => m.perform depth c
  | .apply e callee args env => m.applyWith depth (m.perform depth) e callee args env
  | .resolve v => Machine.forceWith (m.perform depth) links v
  | .script x => m.runWith depth (m.perform depth) x

theorem EvalM.bind_eq_ok {α β : Type} {x : EvalM α} {f : α → EvalM β} {s u : Store} {b : β}
    (h : (x >>= f) s = .ok b u) : ∃ a t, x s = .ok a t ∧ f a t = .ok b u := by
  change EStateM.bind x f s = .ok b u at h
  unfold EStateM.bind at h
  split at h
  · next a t hx => exact ⟨a, t, hx, h⟩
  · cases h

theorem EvalM.read_bind_eq_ok {α β : Type} {f : Store → α} {k : α → EvalM β} {s u : Store} {b : β}
    (h : (EvalM.read f >>= k) s = .ok b u) : ∃ a, f s = a ∧ k a s = .ok b u :=
  ⟨f s, rfl, h⟩

theorem EvalM.render_eq_ok {depth : Nat} {v : Value} {s t : Store} {text : String}
    (h : EvalM.render depth v s = .ok text t) : Shows s v text ∧ s = t := by
  unfold EvalM.render at h
  split at h
  · next hr => cases h; exact ⟨⟨depth, hr⟩, rfl⟩
  · cases h

theorem EvalM.render_bind_eq_ok {β : Type} {depth : Nat} {v : Value} {f : String → EvalM β}
    {s u : Store} {b : β} (h : (EvalM.render depth v >>= f) s = .ok b u) :
    ∃ text, Shows s v text ∧ f text s = .ok b u := by
  obtain ⟨text, t, hr, h⟩ := EvalM.bind_eq_ok h
  obtain ⟨hshow, rfl⟩ := EvalM.render_eq_ok hr
  exact ⟨text, hshow, h⟩

namespace Machine
variable {m : Machine}

/-- A promise answers what it has stored, or what its expression answers, which it
then stores. -/
theorem forceOnceWith_eq_ok {self : Call → EvalM Answer} {id : PromiseId} {s t : Store} {a : Answer}
    (h : forceOnceWith self id s = .ok a t) :
    ((s.promise id).memo = some a ∧ s = t) ∨ ((s.promise id).memo = none ∧
      ∃ u, self (.evaluate (s.promise id).expression (s.promise id).env) s = .ok a u ∧
        u.memoise id a = t) := by
  unfold forceOnceWith at h
  obtain ⟨p, rfl, h⟩ := EvalM.read_bind_eq_ok h
  cases hmemo : (s.promise id).memo with
  | some b =>
    rw [hmemo] at h
    cases h
    exact .inl ⟨rfl, rfl⟩
  | none =>
    rw [hmemo] at h
    obtain ⟨b, u, hrun, h⟩ := EvalM.bind_eq_ok h
    cases h
    exact .inr ⟨rfl, u, hrun, rfl⟩

theorem enter_of_fits {c : Closure} {params : Value} (h : m.strictArity = true → c.Fits params)
    (s : Store) : m.enter c params s =
      .ok ((s.newChild c.env (c.bindings params)).1, true)
        (s.newChild c.env (c.bindings params)).2 := by
  have hno : (m.strictArity && !(matchParams c.params params ∅).exact) = false := by
    cases hs : m.strictArity with
    | false => rfl
    | true => simp [(matchParams_exact c params).mpr (h hs)]
  unfold enter
  simp only [bind, EStateM.bind, EvalM.act, hno, matchParams_frame]
  rfl

theorem enter_of_misfit {c : Closure} {params : Value} (hs : m.strictArity = true)
    (h : ¬ c.Fits params) (s : Store) : m.enter c params s =
      .ok ((s.newChild c.env (c.bindings params)).1, false)
        (m.noted .application (c.misfitText params) (s.newChild c.env (c.bindings params)).2) := by
  have hyes : (m.strictArity && !(matchParams c.params params ∅).exact) = true := by
    simpa [hs, ← matchParams_exact] using h
  unfold enter
  simp only [bind, EStateM.bind, EvalM.act, hyes, matchParams_frame, matchParams_missing,
    matchParams_remaining]
  rfl

end Machine

section Soundness
variable {m : Machine} {n depth links : Nat} {self : Call → EvalM Answer} {s t : Store} {a : Answer}

/-- All that nested calls answer is derivable. -/
def Sound (m : Machine) (self : Call → EvalM Answer) : Prop :=
  ∀ ⦃c s a t⦄, self c s = .ok a t → Derives m Shows (.call c) s a t

theorem improper_sound {tail : Value}
    (h : ((m.withLinks n).improperArguments depth tail : EvalM Answer) s = .ok a t) :
    ∃ text, Shows s tail text ∧ a = .failure ∧
      t = m.noted .evaluator ("Improper argument list tail: " ++ text) s := by
  obtain ⟨text, hshow, h⟩ := EvalM.render_bind_eq_ok h
  cases h
  exact ⟨text, hshow, rfl, rfl⟩

theorem arguments_sound (hs : Sound m self) {args : Value} {env : EnvId}
    (h : (m.withLinks n).argumentsWith depth self args env s = .ok a t) :
    Derives m Shows (.call (.arguments args env)) s a t := by
  unfold Machine.argumentsWith at h
  cases args with
  | nil => cases h; exact .noArguments
  | pair _ first rest =>
    obtain ⟨head, s₁, hhead, h⟩ := EvalM.bind_eq_ok h
    split at h
    · next hok =>
      obtain ⟨tail, s₂, htail, h⟩ := EvalM.bind_eq_ok h
      split at h
      · next hok' =>
        cases h
        exact .argument (hs hhead) hok (hs htail) hok'
      · next hok' =>
        cases h
        exact .argumentsFail (hs hhead) hok (hs htail) (Bool.eq_false_iff.mpr hok')
    · next hok =>
      cases h
      exact .argumentFails (hs hhead) (Bool.eq_false_iff.mpr hok)
  | _ =>
    obtain ⟨text, hshow, rfl, rfl⟩ := improper_sound h
    exact .improper nofun nofun hshow

theorem deferred_sound (hs : Sound m self) {args : Value} {env : EnvId}
    (h : (m.withLinks n).deferredWith depth self args env s = .ok a t) :
    Derives m Shows (.call (.deferred args env)) s a t := by
  unfold Machine.deferredWith at h
  cases args with
  | nil => cases h; exact .noDeferred
  | pair _ first rest =>
    obtain ⟨tail, s₁, htail, h⟩ := EvalM.bind_eq_ok h
    split at h
    · next hok =>
      cases h
      exact .defer (hs htail) hok
    · next hok =>
      cases h
      exact .deferFails (hs htail) (Bool.eq_false_iff.mpr hok)
  | _ =>
    obtain ⟨text, hshow, rfl, rfl⟩ := improper_sound h
    exact .improperDeferred nofun nofun hshow

theorem apply_sound (hs : Sound m self) {e callee args : Value} {env : EnvId}
    (h : (m.withLinks n).applyWith depth self e callee args env s = .ok a t) :
    Derives m Shows (.apply e callee args env) s a t := by
  unfold Machine.applyWith at h
  cases callee with
  | native p =>
    dsimp only at h
    split at h
    · next hlazy => exact .lazyNative hlazy (hs h)
    · next hlazy =>
      obtain ⟨params, s₁, hparams, h⟩ := EvalM.bind_eq_ok h
      have heager := Bool.eq_false_iff.mpr hlazy
      split at h
      · next hok => exact .eagerNative heager (hs hparams) hok (hs h)
      · next hok =>
        cases h
        exact .nativeUnmet heager (hs hparams) (Bool.eq_false_iff.mpr hok)
  | closure =>
    obtain ⟨params, s₁, hparams, h⟩ := EvalM.bind_eq_ok h
    split at h
    · next hok => exact .closure (hs hparams) hok (hs h)
    · next hok =>
      cases h
      exact .closureUnmet (hs hparams) (Bool.eq_false_iff.mpr hok)
  | _ =>
    obtain ⟨shown, hshown, h⟩ := EvalM.render_bind_eq_ok h
    obtain ⟨whole, hwhole, h⟩ := EvalM.render_bind_eq_ok h
    cases h
    exact .notProcedure nofun nofun hshown hwhole

theorem evaluate_sound (hs : Sound m self) {e : Value} {env : EnvId}
    (h : (m.withLinks n).evaluateWith depth self e env s = .ok a t) :
    Derives m Shows (.call (.evaluate e env)) s a t := by
  unfold Machine.evaluateWith at h
  cases e with
  | symbol name =>
    obtain ⟨found, hfound, h⟩ := EvalM.read_bind_eq_ok h
    cases found with
    | some v => cases h; exact .bound hfound
    | none => cases h; exact .unbound hfound
  | pair mark head args =>
    obtain ⟨callee, s₁, hcallee, h⟩ := EvalM.bind_eq_ok h
    split at h
    · next hok => exact .apply (hs hcallee) hok (apply_sound hs h)
    · next hok =>
      obtain ⟨whole, hwhole, h⟩ := EvalM.render_bind_eq_ok h
      cases h
      exact .headFails (hs hcallee) (Bool.eq_false_iff.mpr hok) hwhole
  | promise id => exact .promise (hs h)
  | _ => cases h; exact .itself nofun nofun nofun

theorem forceOnce_sound (hs : Sound m self) {id : PromiseId}
    (h : Machine.forceOnceWith self id s = .ok a t) : Derives m Shows (.call (.force id)) s a t := by
  rcases Machine.forceOnceWith_eq_ok h with ⟨hmemo, rfl⟩ | ⟨hmemo, u, hrun, rfl⟩
  · exact .stored hmemo
  · exact .fresh hmemo (hs hrun)

theorem resolve_sound (hs : Sound m self) {v : Value}
    (h : Machine.forceWith self links v s = .ok a t) : Derives m Shows (.resolve v) s a t := by
  induction links generalizing v s with
  | zero =>
    cases v with
    | promise id => cases h
    | _ => cases h; exact .resolved nofun
  | succ links ih =>
    cases v with
    | promise id =>
      obtain ⟨b, s₁, hb, h⟩ := EvalM.bind_eq_ok h
      split at h
      · next hok => exact .follow (hs hb) hok (ih h)
      · next hok => cases h; exact .chainFails (hs hb) (Bool.eq_false_iff.mpr hok)
    | _ => cases h; exact .resolved nofun

theorem closure_sound (hs : Sound m self) {c : Closure} {params : Value}
    (h : (m.withLinks n).applyClosureWith self c params s = .ok a t) :
    Derives m Shows (.call (.closure c params)) s a t := by
  obtain ⟨entered, s₁, henter, h⟩ := EvalM.bind_eq_ok h
  change (m.withLinks n).enter c params s = .ok entered s₁ at henter
  by_cases hfits : m.strictArity = true → c.Fits params
  · rw [Machine.enter_of_fits (m := m.withLinks n) hfits] at henter
    cases henter
    exact .body hfits (hs h)
  · obtain ⟨hstrict, hmisfit⟩ := Classical.not_imp.mp hfits
    rw [Machine.enter_of_misfit (m := m.withLinks n) hstrict hmisfit] at henter
    cases henter
    cases h
    exact .misfit hstrict hmisfit

theorem script_sound (hs : Sound m self) {x : Script Answer}
    (h : (m.withLinks n).runWith depth self x s = .ok a t) : Derives m Shows (.script x) s a t := by
  induction x generalizing s with
  | done b => cases h; exact .done
  | raise fault =>
    change EvalM.raise depth fault s = .ok a t at h
    unfold EvalM.raise at h
    split at h <;> cases h
  | ask r next ih =>
    obtain ⟨reply, s₁, hserve, h⟩ := EvalM.bind_eq_ok h
    have hnext := ih _ h
    cases r with
    | evaluate => exact .askEvaluate (hs hserve) hnext
    | force => exact .askForce (resolve_sound hs hserve) hnext
    | applyClosure => exact .askClosure (hs hserve) hnext
    | applyNative => exact .askNative (hs hserve) hnext
    | render v =>
      obtain ⟨hshow, rfl⟩ := EvalM.render_eq_ok hserve
      exact .act (.render hshow) hnext
    | chain | lookup | bind | newChild | newMapping | read | write | newPromise | newMark | emit
      | effects =>
      cases hserve
      exact .act (by constructor) hnext

theorem native_sound (hs : Sound m self) {p : Native} {params : Value} {env : EnvId}
    (h : (m.withLinks n).applyNativeWith depth self p params env s = .ok a t) :
    Derives m Shows (.call (.native p params env)) s a t := by
  obtain ⟨b, s₁, hrun, h⟩ := EvalM.bind_eq_ok h
  obtain ⟨_, s₂, hreport, h⟩ := EvalM.bind_eq_ok h
  cases h
  change (m.withLinks n).reportFailure p a s₁ = .ok () t at hreport
  unfold Machine.reportFailure at hreport
  split at hreport
  · next hok => cases hreport; exact .native (script_sound hs hrun) hok
  · next hok =>
    cases hreport
    exact .nativeFails (script_sound hs hrun) (Bool.eq_false_iff.mpr hok)

theorem perform_sound (m : Machine) (n depth : Nat) :
    Sound m ((m.withLinks n).perform depth) := by
  induction depth with
  | zero => intro c s a t h; cases h
  | succ depth ih =>
    intro c s a t h
    cases c with
    | evaluate e env => exact evaluate_sound ih h
    | arguments args env => exact arguments_sound ih h
    | deferred args env => exact deferred_sound ih h
    | force id => exact forceOnce_sound ih h
    | closure c params => exact closure_sound ih h
    | native p params env => exact native_sound ih h

/-- **What the evaluator answers is derivable.** -/
theorem run_sound {task : Task} (h : task.run (m.withLinks n) depth links s = .ok a t) :
    Derives m Shows task s a t := by
  have hs := perform_sound m n depth
  cases task with
  | call c => exact hs h
  | apply e callee args env => exact apply_sound hs h
  | resolve v => exact resolve_sound hs h
  | script x => exact script_sound hs h

end Soundness

end LispCore
