import LispCore.Proofs.RaisedErrors

/-! # Arguments are evaluated from left to right

The values of the arguments are listed on the way back, but the arguments are evaluated on
the way in, each a level deeper than the one before it. So a list of arguments is a series of
evaluations, each in the store that the one before left, up to the first that fails or stops,
and nothing else is evaluated (`arguments_left_to_right`). How the list ends is noticed after
all of them, and a list with more elements than there are levels goes too deep before.

An improper end is a failure, and its note quotes the end. An end that cannot be written
stops the list instead, after all arguments have been evaluated (`dottedKnot_stops`). -/
namespace LispCore

/-- The call is the evaluation of an expression, from a store on. -/
structure Made.Evaluates (c : Made) (m : Machine) (depth : Nat) (e : Value) (env : EnvId)
    (s : Store) : Prop where
  call : c.call = .evaluate e env
  start : c.start = s
  traced : m.traced depth (.evaluate e env) s = (c.outcome, c.inner ++ [c])

/-- The calls of a series of evaluations, with those inside each of them. -/
def series (runs : List Made) : List Made := runs.flatMap fun c => c.inner ++ [c]

/-- The call answered with success. -/
def Made.Succeeded (c : Made) : Prop := ∃ a t, c.outcome = .ok a t ∧ a.ok = true

/-- Expressions are evaluated one after another, each a level deeper than the one before and
in the store that it left, and all of them succeed. Without a level left none succeeds. -/
inductive EvaluatesAll (m : Machine) (env : EnvId) :
    Nat → List Value → Store → List Made → List Value → Store → Prop
  | nil (depth : Nat) (s : Store) : EvaluatesAll m env depth [] s [] [] s
  | cons {depth : Nat} {e : Value} {es vs : List Value} {s t u : Store} {c : Made} {a : Answer}
      {runs : List Made} : c.Evaluates m (depth + 1) e env s → c.outcome = .ok a t → a.ok = true →
      EvaluatesAll m env depth es t runs vs u →
      EvaluatesAll m env (depth + 1) (e :: es) s (c :: runs) (a.value :: vs) u

section Series
variable {m : Machine} {depth : Nat} {env : EnvId}

theorem exists_evaluates (m : Machine) (depth : Nat) (e : Value) (env : EnvId) (s : Store) :
    ∃ c : Made, c.Evaluates m depth e env s ∧ c.outcome = m.evaluate depth e env s := by
  obtain ⟨inner, h⟩ := traced_snd m depth (.evaluate e env) s
  exact ⟨.mk (.evaluate e env) s (m.evaluate depth e env s) inner, ⟨rfl, rfl, h⟩, rfl⟩

theorem Made.Evaluates.outcome_zero {c : Made} {e : Value} {s : Store}
    (h : c.Evaluates m 0 e env s) : c.outcome = .error .tooDeep s :=
  (congrArg Prod.fst h.traced).symm

/-- In a series either all evaluations succeed, or there is a first one that does not. -/
theorem evaluatesAll_or_first (m : Machine) (depth : Nat) (env : EnvId) (es : List Value)
    (s : Store) :
    (∃ runs vs t, EvaluatesAll m env depth es s runs vs t) ∨
      ∃ before e after runs vs t c, es = before ++ e :: after ∧
        EvaluatesAll m env depth before s runs vs t ∧
        Made.Evaluates c m (depth - before.length) e env t ∧ ¬ c.Succeeded := by
  induction es generalizing depth s with
  | nil => exact .inl ⟨[], [], s, .nil depth s⟩
  | cons e es ih =>
    obtain ⟨c, hc, -⟩ := exists_evaluates m depth e env s
    by_cases hok : c.Succeeded
    · obtain ⟨a, t, hout, hsuccess⟩ := hok
      cases depth with
      | zero =>
        rw [hc.outcome_zero] at hout
        cases hout
      | succ depth =>
        rcases ih depth t with
          ⟨runs, vs, u, hall⟩ | ⟨before, e', after, runs, vs, u, c', hes, hall, hrest⟩
        · exact .inl ⟨_, _, u, .cons hc hout hsuccess hall⟩
        · refine .inr ⟨e :: before, e', after, _, _, u, c', ?_, .cons hc hout hsuccess hall, ?_⟩
          · rw [hes]
            rfl
          · rwa [List.length_cons, Nat.add_sub_add_right]
    · exact .inr ⟨[], e, es, [], [], s, c, rfl, .nil depth s, hc, hok⟩

end Series

/-! ## One argument and the rest -/

/-- How the arguments end, after the value of the first and the end of the rest. -/
def afterFirst (v : Value) :
    EStateM.Result Stop Store Answer → EStateM.Result Stop Store Answer
  | .ok tail t =>
    if tail.ok then .ok (.success (t.newPair v tail.value).1) (t.newPair v tail.value).2
    else .ok .failure t
  | .error e t => .error e t

/-- How the arguments end at the first that did not succeed. -/
def whereFailed : EStateM.Result Stop Store Answer → EStateM.Result Stop Store Answer
  | .ok _ t => .ok .failure t
  | .error e t => .error e t

/-- How the arguments end at an improper end of their list. -/
def atImproperEnd (m : Machine) (depth : Nat) (tail : Value) (t : Store) :
    EStateM.Result Stop Store Answer :=
  match t.render depth tail with
  | .ok text => .ok .failure (m.noted .evaluator ("Improper argument list tail: " ++ text) t)
  | .error why => .error why.stop t

section Ends
variable {m : Machine} {depth : Nat} {v : Value} {t : Store}

theorem afterFirst_whereFailed (r : EStateM.Result Stop Store Answer) :
    afterFirst v (whereFailed r) = whereFailed r := by
  cases r <;> rfl

theorem afterFirst_atImproperEnd (tail : Value) :
    afterFirst v (atImproperEnd m depth tail t) = atImproperEnd m depth tail t := by
  unfold atImproperEnd
  split <;> rfl

/-- An improper end is a failure or a stop. -/
theorem atImproperEnd_cases (m : Machine) (depth : Nat) (tail : Value) (t : Store) :
    (∃ u, atImproperEnd m depth tail t = .ok .failure u) ∨
      ∃ why u, atImproperEnd m depth tail t = .error why u := by
  unfold atImproperEnd
  split
  · exact .inl ⟨_, rfl⟩
  · exact .inr ⟨_, _, rfl⟩

theorem improperArguments_traced (m : Machine) (depth : Nat) (tail : Value) (s : Store) :
    (m.improperArguments depth tail : TraceM Answer) s = (atImproperEnd m depth tail s, []) := by
  unfold Machine.improperArguments atImproperEnd
  cases hrender : s.render depth tail with
  | ok text => exact TraceM.bind_ok (TraceM.render_of_ok hrender)
  | error why => exact TraceM.bind_error (TraceM.render_of_error hrender)

end Ends

/-! ## The whole list -/

/-- The arguments end in this way after a series of evaluations, which are those of as many
arguments, from the first on and one for each. Nothing is called but these, what is called
inside them, and the rests of the list. -/
structure ArgumentsEnd (m : Machine) (depth : Nat) (args : Value) (env : EnvId) (s : Store)
    (r : EStateM.Result Stop Store Answer) (runs : List Made) : Prop where
  outcome : m.evaluateArguments depth args env s = r
  evaluated : runs.map Made.call = (args.elements.take runs.length).map (Call.evaluate · env)
  calls : ∃ lists, (Task.call (.arguments args env)).calls m depth s = series runs ++ lists ∧
    ∀ c ∈ lists, ∃ rest, c.call = .arguments rest env

namespace ArgumentsEnd
variable {m : Machine} {depth : Nat} {env : EnvId} {s t : Store} {args e rest : Value}
  {r : EStateM.Result Stop Store Answer} {runs : List Made} {vs : List Value} {c : Made}
  {a : Answer}

/-- What a call of a list does, from its step. -/
theorem of_step (lists : List Made)
    (h : m.step depth (m.traced depth) (.arguments args env) s = (r, series runs ++ lists))
    (hcalls : runs.map Made.call = (args.elements.take runs.length).map (Call.evaluate · env))
    (hlists : ∀ c ∈ lists, ∃ rest, c.call = .arguments rest env) :
    ArgumentsEnd m (depth + 1) args env s r runs := by
  have htraced := traced_of_step h
  refine ⟨?_, hcalls, lists ++ [.mk (.arguments args env) s r (series runs ++ lists)], ?_, ?_⟩
  · exact (traced_fst m (depth + 1) (.arguments args env) s).symm.trans
      (congrArg Prod.fst htraced)
  · rw [← List.append_assoc]
    exact congrArg Prod.snd htraced
  · intro c hc
    rcases List.mem_append.mp hc with hc | hc
    · exact hlists c hc
    · rw [List.mem_singleton.mp hc]
      exact ⟨args, rfl⟩

/-- One argument that succeeds, and the rest of the list. -/
theorem pair (mark : Mark) (hc : c.Evaluates m depth e env s) (hout : c.outcome = .ok a t)
    (hok : a.ok = true) (hrest : ArgumentsEnd m depth rest env t r runs) :
    ArgumentsEnd m (depth + 1) (.pair mark e rest) env s (afterFirst a.value r) (c :: runs) := by
  obtain ⟨lists, hcalls, hlists⟩ := hrest.calls
  have hfirst := hc.traced
  rw [hout] at hfirst
  have htail : m.traced depth (.arguments rest env) t = (r, series runs ++ lists) :=
    Prod.ext ((traced_fst m depth (.arguments rest env) t).trans hrest.outcome) hcalls
  have hseries : c.inner ++ [c] ++ (series runs ++ lists) = series (c :: runs) ++ lists := by
    simp [series]
  refine of_step lists ?_ ?_ hlists
  · refine (TraceM.bind_ok hfirst).trans ?_
    rw [if_pos hok, ← hseries]
    cases r with
    | ok tail u =>
      rw [TraceM.bind_ok htail]
      cases hsuccess : tail.ok with
      | true =>
        simp only [afterFirst, hsuccess, if_true]
        change (_, c.inner ++ [c] ++ (series runs ++ lists ++ [])) = _
        rw [List.append_nil]
        rfl
      | false =>
        simp only [afterFirst, hsuccess, Bool.false_eq_true, if_false]
        change (_, c.inner ++ [c] ++ (series runs ++ lists ++ [])) = _
        rw [List.append_nil]
        rfl
    | error why u =>
      rw [TraceM.bind_error htail]
      rfl
  · simp [hc.call, hrest.evaluated]

/-- An argument that does not succeed. -/
theorem failed (mark : Mark) (rest : Value) (hc : c.Evaluates m depth e env s)
    (hno : ¬ c.Succeeded) :
    ArgumentsEnd m (depth + 1) (.pair mark e rest) env s (whereFailed c.outcome) [c] := by
  have hfirst := hc.traced
  have hseries : series [c] ++ [] = c.inner ++ [c] := by simp [series]
  refine of_step [] ?_ (by simp [hc.call]) (by simp)
  rw [hseries]
  cases hout : c.outcome with
  | ok a t =>
    have hfailed : ¬ a.ok = true := fun hok => hno ⟨a, t, hout, hok⟩
    rw [hout] at hfirst
    refine (TraceM.bind_ok hfirst).trans ?_
    rw [if_neg hfailed, TraceM.pure_apply, List.append_nil]
    rfl
  | error why t =>
    rw [hout] at hfirst
    exact TraceM.bind_error hfirst

/-- An end that is not nil. -/
theorem improper (hnil : args ≠ .nil) (hpair : args.elements = []) :
    ArgumentsEnd m (depth + 1) args env s (atImproperEnd m depth args s) [] := by
  refine of_step [] ?_ (by simp) (by simp)
  cases args with
  | nil => exact absurd rfl hnil
  | pair => cases hpair
  | _ => exact improperArguments_traced m depth _ s

/-- The list ends at the first argument that does not succeed. -/
theorem of_first {before after : List Value} (hargs : args.elements = before ++ e :: after)
    (hall : EvaluatesAll m env depth before s runs vs t)
    (hc : c.Evaluates m (depth - before.length) e env t) (hno : ¬ c.Succeeded) :
    ArgumentsEnd m (depth + 1) args env s (whereFailed c.outcome) (runs ++ [c]) := by
  induction hall generalizing args with
  | nil depth s =>
    cases args with
    | pair mark first rest =>
      cases hargs
      exact failed mark rest hc hno
    | _ => cases hargs
  | cons hfirst hout hok _ ih =>
    cases args with
    | pair mark first rest =>
      obtain ⟨rfl, hrest⟩ := List.cons.inj hargs
      rw [List.length_cons, Nat.add_sub_add_right] at hc
      have hend := pair mark hfirst hout hok (ih hrest hc)
      rwa [afterFirst_whereFailed] at hend
    | _ => cases hargs

theorem of_stopped {before after : List Value} {why : Stop} {u : Store}
    (hargs : args.elements = before ++ e :: after)
    (hall : EvaluatesAll m env depth before s runs vs t)
    (hc : c.Evaluates m (depth - before.length) e env t) (hout : c.outcome = .error why u) :
    ArgumentsEnd m (depth + 1) args env s (.error why u) (runs ++ [c]) := by
  have hno : ¬ c.Succeeded := by
    rintro ⟨a, w, ha, -⟩
    rw [hout] at ha
    cases ha
  have hend := of_first hargs hall hc hno
  rwa [hout] at hend

/-- The argument behind the last level has none left. -/
theorem of_long (hlong : depth < args.elements.length)
    (hall : EvaluatesAll m env depth (args.elements.take depth) s runs vs t) :
    ∃ c, ArgumentsEnd m (depth + 1) args env s (.error .tooDeep t) (runs ++ [c]) := by
  have hsplit : args.elements = args.elements.take depth ++
      args.elements.get ⟨depth, hlong⟩ :: args.elements.drop (depth + 1) := by
    simp
  obtain ⟨c, hc, -⟩ := exists_evaluates m 0 (args.elements.get ⟨depth, hlong⟩) env t
  have hlevel : depth - (args.elements.take depth).length = 0 := by
    rw [List.length_take]
    omega
  exact ⟨c, of_stopped hsplit hall (hlevel ▸ hc) hc.outcome_zero⟩

/-- All arguments succeed, and then the list ends as it should. -/
theorem of_proper (hall : EvaluatesAll m env depth args.elements s runs vs t)
    (hend : args.ending = .nil) :
    ArgumentsEnd m (depth + 1) args env s
      (.ok (.success (t.newList vs).1) (t.newList vs).2) runs := by
  generalize hargs : args.elements = es at hall
  induction hall generalizing args with
  | nil depth s =>
    cases args with
    | nil => exact of_step [] rfl rfl (by simp)
    | pair => cases hargs
    | _ => cases hend
  | cons hfirst hout hok _ ih =>
    cases args with
    | pair mark first rest =>
      obtain ⟨rfl, hrest⟩ := List.cons.inj hargs
      have hlast : rest.ending = .nil := hend
      exact pair mark hfirst hout hok (ih hlast hrest)
    | _ => cases hargs

/-- All arguments succeed, and then the end of the list is improper. -/
theorem of_improper (hall : EvaluatesAll m env depth args.elements s runs vs t)
    (hend : args.ending ≠ .nil) :
    ArgumentsEnd m (depth + 1) args env s
      (atImproperEnd m (depth - args.elements.length) args.ending t) runs := by
  generalize hargs : args.elements = es at hall
  induction hall generalizing args with
  | nil depth s =>
    cases args with
    | nil => exact absurd rfl hend
    | pair => cases hargs
    | _ => exact improper nofun rfl
  | cons hfirst hout hok _ ih =>
    cases args with
    | pair mark first rest =>
      obtain ⟨rfl, hrest⟩ := List.cons.inj hargs
      have hlast : rest.ending ≠ .nil := hend
      have himproper := pair mark hfirst hout hok (ih hlast hrest)
      rw [afterFirst_atImproperEnd] at himproper
      rwa [List.length_cons, Nat.add_sub_add_right, Value.ending_pair]
    | _ => cases hargs

end ArgumentsEnd

/-- **Arguments are evaluated from left to right, up to the first that does not succeed.**
Each is evaluated a level deeper than the one before it. If an argument fails, the list fails
in the store that it left, and if it stops, the list stops in the same way. If all succeed and
the list is proper, the answer is the proper list of their values in order, and the store is
that of the last evaluation but for the marks of the new pairs. If all succeed and the list is
improper, all have been evaluated; the list fails with a note that quotes its end, or stops if
that cannot be written. One of these is always the case. A list with more elements than there
are levels goes too deep, if none of those within them fails or stops before. -/
theorem arguments_left_to_right (m : Machine) (depth : Nat) (args : Value) (env : EnvId)
    (s : Store) :
    (∀ before e after runs vs t c, args.elements = before ++ e :: after →
        EvaluatesAll m env depth before s runs vs t →
        Made.Evaluates c m (depth - before.length) e env t →
        (∀ a u, c.outcome = .ok a u → a.ok = false →
          ArgumentsEnd m (depth + 1) args env s (.ok .failure u) (runs ++ [c])) ∧
        ∀ why u, c.outcome = .error why u →
          ArgumentsEnd m (depth + 1) args env s (.error why u) (runs ++ [c])) ∧
      (∀ runs vs t, EvaluatesAll m env depth args.elements s runs vs t →
        (args.ending = .nil → ∃ list, list.properElements = .ok vs ∧
          ArgumentsEnd m (depth + 1) args env s
            (.ok (.success list) { t with marks := t.marks + vs.length }) runs) ∧
        (args.ending ≠ .nil →
          (∀ text, t.render (depth - args.elements.length) args.ending = .ok text →
            ArgumentsEnd m (depth + 1) args env s (.ok .failure
              (m.noted .evaluator ("Improper argument list tail: " ++ text) t)) runs) ∧
          ∀ why, t.render (depth - args.elements.length) args.ending = .error why →
            ArgumentsEnd m (depth + 1) args env s (.error why.stop t) runs)) ∧
      ((∃ runs vs t, EvaluatesAll m env depth args.elements s runs vs t) ∨
        ∃ before e after runs vs t c, args.elements = before ++ e :: after ∧
          EvaluatesAll m env depth before s runs vs t ∧
          Made.Evaluates c m (depth - before.length) e env t ∧ ¬ c.Succeeded) ∧
      (∀ runs vs t, depth < args.elements.length →
        EvaluatesAll m env depth (args.elements.take depth) s runs vs t →
        m.evaluateArguments (depth + 1) args env s = .error .tooDeep t) ∧
      m.evaluateArguments 0 args env s = .error .tooDeep s := by
  refine ⟨?_, ?_, evaluatesAll_or_first m depth env args.elements s, ?_, rfl⟩
  · intro before e after runs vs t c hargs hall hc
    refine ⟨fun a u hout hno => ?_, fun why u => .of_stopped hargs hall hc⟩
    have hfailed : ¬ c.Succeeded := by
      rintro ⟨b, w, hb, hok⟩
      rw [hout] at hb
      cases hb
      rw [hno] at hok
      cases hok
    have hend := ArgumentsEnd.of_first hargs hall hc hfailed
    rwa [hout] at hend
  · intro runs vs t hall
    refine ⟨fun hend => ⟨(t.newList vs).1, t.properElements_newList vs, ?_⟩, fun hend => ?_⟩
    · rw [← t.newChain_snd vs .nil]
      exact .of_proper hall hend
    · have himproper := ArgumentsEnd.of_improper hall hend
      refine ⟨fun text htext => ?_, fun why hwhy => ?_⟩
      · rwa [atImproperEnd, htext] at himproper
      · rwa [atImproperEnd, hwhy] at himproper
  · intro runs vs t hlong hall
    obtain ⟨c, hend⟩ := ArgumentsEnd.of_long hlong hall
    exact hend.outcome

namespace Prelude

/-- Arguments that bind a name, use it, fail at another one and would make a number
visible. -/
def rebindingArguments : Value :=
  form [form [.symbol "define", .symbol "y", .integer 1], .symbol "y", .symbol "missing",
    form [.symbol "tick", .integer 2]]

/-- An environment with what these arguments call. -/
def rebindingStore : Store where
  mappings := #[frame ["define", "tick"]]
  environments := #[⟨⟨0⟩, none⟩]

end Prelude

/-- The third of four arguments fails: the first two have been evaluated, the second in the
scope that the first changed, and the last one has not. -/
theorem rebindingArguments_fail :
    ∃ u runs, ArgumentsEnd Prelude.machine 20 Prelude.rebindingArguments ⟨0⟩
        Prelude.rebindingStore (.ok .failure u) runs ∧
      runs.length = 3 ∧ u.lookup ⟨0⟩ "y" = some (.integer 1) ∧ u.effects = #[] := by
  let t := Prelude.rebindingStore.bind ⟨0⟩ "y" (.integer 1)
  obtain ⟨c₁, h₁, hout₁⟩ := exists_evaluates Prelude.machine 19
    (form [.symbol "define", .symbol "y", .integer 1]) ⟨0⟩ Prelude.rebindingStore
  obtain ⟨c₂, h₂, hout₂⟩ := exists_evaluates Prelude.machine 18 (.symbol "y") ⟨0⟩ t
  obtain ⟨c₃, h₃, hout₃⟩ := exists_evaluates Prelude.machine 17 (.symbol "missing") ⟨0⟩ t
  have hone : c₁.outcome = .ok (.success (.integer 1)) t := hout₁.trans rfl
  have htwo : c₂.outcome = .ok (.success (.integer 1)) t := hout₂.trans rfl
  have hthree : c₃.outcome = .ok .failure t := hout₃.trans rfl
  have hall := EvaluatesAll.cons h₁ hone rfl (.cons h₂ htwo rfl (.nil 17 t))
  have hend := ((arguments_left_to_right Prelude.machine 19 Prelude.rebindingArguments ⟨0⟩
    Prelude.rebindingStore).1 _ _ [form [.symbol "tick", .integer 2]] _ _ t c₃ rfl hall h₃).1
    .failure t hthree rfl
  exact ⟨t, _, hend, rfl, rfl, rfl⟩

/-- One argument, and a promise that is its own result in place of the end. -/
def dottedKnot : Value := .pair ⟨0⟩ (.integer 1) (.promise ⟨0⟩)

/-- As many zeros as there are levels are their own values. -/
theorem evaluatesAll_zeros (m : Machine) (depth : Nat) (env : EnvId) (s : Store) :
    ∃ runs, EvaluatesAll m env depth (List.replicate depth (.integer 0)) s runs
      (List.replicate depth (.integer 0)) s := by
  induction depth with
  | zero => exact ⟨[], .nil 0 s⟩
  | succ depth ih =>
    obtain ⟨runs, hall⟩ := ih
    obtain ⟨c, hc, hout⟩ := exists_evaluates m (depth + 1) (.integer 0) env s
    exact ⟨c :: runs, .cons hc (hout.trans rfl) rfl hall⟩

/-- A list that has a zero for each level goes too deep. -/
theorem evaluateArguments_zeros (m : Machine) (depth : Nat) (env : EnvId) (s : Store) :
    m.evaluateArguments depth (form (List.replicate depth (.integer 0))) env s =
      .error .tooDeep s := by
  cases depth with
  | zero => rfl
  | succ depth =>
    obtain ⟨runs, hall⟩ := evaluatesAll_zeros m depth env s
    have htake : (form (List.replicate (depth + 1) (.integer 0))).elements.take depth =
        List.replicate depth (.integer 0) := by
      simp [elements_form]
    obtain ⟨c, hend⟩ := ArgumentsEnd.of_long (by simp [elements_form]) (htake ▸ hall)
    exact hend.outcome

/-- A list whose arguments all succeed stops at its improper end, at every depth, if the end
is a promise that is its own result. And at every depth there is a proper list of numbers that
goes too deep. -/
theorem dottedKnot_stops :
    Prelude.machine.perform 2 (.force ⟨0⟩) looseKnot = .ok (.success (.promise ⟨0⟩)) knot ∧
      dottedKnot.ending ≠ .nil ∧
      (∀ depth, (∃ runs, EvaluatesAll Prelude.machine ⟨0⟩ (depth + 1) dottedKnot.elements knot runs
          [.integer 1] knot) ∧
        Prelude.machine.evaluateArguments (depth + 2) dottedKnot ⟨0⟩ knot =
          .error .tooDeep knot) ∧
      ∀ depth, Prelude.machine.evaluateArguments depth
        (form (List.replicate depth (.integer 0))) ⟨0⟩ knot = .error .tooDeep knot := by
  refine ⟨rfl, nofun, fun depth => ?_, fun depth => ?_⟩
  · obtain ⟨c, hc, hout⟩ := exists_evaluates Prelude.machine (depth + 1) (.integer 1) ⟨0⟩ knot
    have hone : c.outcome = .ok (.success (.integer 1)) knot := hout.trans rfl
    have hall : EvaluatesAll Prelude.machine ⟨0⟩ (depth + 1) dottedKnot.elements knot [c]
        [.integer 1] knot := .cons hc hone rfl (.nil depth knot)
    refine ⟨⟨[c], hall⟩, (ArgumentsEnd.of_improper hall nofun).outcome.trans ?_⟩
    have hknot : knot.render (depth + 1 - dottedKnot.elements.length) dottedKnot.ending =
        .error .tooDeep := render_own_result rfl _
    rw [atImproperEnd, hknot]
    rfl
  · exact evaluateArguments_zeros Prelude.machine depth ⟨0⟩ knot

end LispCore
