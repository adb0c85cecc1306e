import LispCore.Proofs.EqualityLaws
import LispCore.Proofs.SeparatePromises
import LispCore.Proofs.StrictArity

/-! # Proper lists

Five pieces of code go through a chain of pairs: walking it, counting its elements,
evaluating its elements as arguments or putting them off, and binding them to the parameters
of a strict closure. They look at the end of the chain in different ways, and all of them
accept it exactly if it is nil (`lists_agree`). Three of them are loops. Evaluating and putting
off take a level for each element, so that they accept a proper list only within the depth.

What goes through an improper list is stopped by a fault about its ending. The message of
the fault describes the ending, and an ending that cannot be described, such as an integer
with too many digits, stops it in another way (`undescribed_ending`). -/
namespace LispCore

namespace Value

theorem walk_pair (mark : Mark) (first rest : Value) :
    (pair mark first rest).walk = (first :: rest.walk.1, rest.walk.2) := rfl

/-- Walking meets the elements in order, and there is a fault exactly if the ending is not
nil. -/
theorem walk_eq (v : Value) :
    v.walk = (v.elements, if v.ending.isNil then none else some (.improperList v.ending)) := by
  induction v using Value.ending.induct with
  | case1 mark first rest ih =>
    rw [walk_pair, ih]
    rfl
  | case2 v hv =>
    cases v with
    | pair mark first rest => exact (hv mark first rest rfl).elim
    | _ => rfl

theorem listElements_of_proper {v : Value} (h : v.ending = .nil) :
    v.listElements = .ok v.elements := by
  rw [listElements, properElements_eq_ok_iff.mpr ⟨h, rfl⟩]
  rfl

theorem listElements_of_improper {v : Value} (h : v.ending ≠ .nil) :
    v.listElements = .error (.improperList v.ending) := by
  have herror : v.properElements = .error v.ending := by
    unfold properElements
    split
    · next hnil => exact absurd hnil h
    · rfl
  rw [listElements, herror]
  rfl

/-- Chains of pairs with the same elements and the same ending are equal, whatever their
marks. -/
theorem equal_of_chain {v w : Value} (helements : v.elements = w.elements)
    (hending : v.ending = w.ending) : v.equal w = true := by
  induction v using Value.ending.induct generalizing w with
  | case1 mark first rest ih =>
    cases w with
    | pair mark' first' rest' =>
      obtain ⟨rfl, hrest⟩ := List.cons.inj helements
      simp [equal, equal_self, ih hrest hending]
    | _ => cases helements
  | case2 v hv =>
    have hv := chain_of_not_pair (tag_ne_pair hv)
    have hw : w.tag ≠ .pair := by
      intro htag
      cases w with
      | pair => cases hv.1.symm.trans helements
      | _ => cases htag
    rw [hv.2, (chain_of_not_pair hw).2] at hending
    rw [hending]
    exact equal_self w

end Value

/-- How going through a list ends that has the given ending instead of nil. -/
def Store.improperStop (s : Store) (depth : Nat) (tail : Value) : Stop :=
  match s.describe depth tail with
  | .ok text => .raised (.improperList tail) ("Improper list tail: " ++ text)
  | .error why => why.stop

namespace Machine
variable {m : Machine} {depth : Nat} {env : EnvId} {args : Value} {s t : Store} {a : Answer}

theorem runWith_of_improper {α : Type} {self : Call → EvalM Answer} {tail : Value}
    {x : Except Fault α} (h : x = .error (.improperList tail)) (s : Store) :
    m.runWith depth self (.ofExcept x) s = .error (s.improperStop depth tail) s := by
  subst h
  have hmessage : (Fault.improperList tail).message s depth =
      (s.describe depth tail).map ("Improper list tail: " ++ ·) := rfl
  change EvalM.raise depth (.improperList tail) s = _
  simp only [EvalM.raise, hmessage, Store.improperStop]
  cases s.describe depth tail <;> rfl

/-- A list of arguments that is evaluated is proper and within the depth, and the list of the
values is proper. -/
theorem chain_of_arguments (h : m.evaluateArguments depth args env s = .ok a t)
    (ha : a.ok = true) :
    (args.ending = .nil ∧ args.elements.length < depth) ∧ a.value.ending = .nil ∧
      a.value.elements.length = args.elements.length := by
  induction args using Value.elements.induct generalizing depth s t a with
  | case1 mark first rest ih =>
    cases depth with
    | zero => cases h
    | succ depth =>
      obtain ⟨head, u, -, h⟩ := EvalM.bind_eq_ok h
      split at h
      · obtain ⟨tail, u', htail, h⟩ := EvalM.bind_eq_ok h
        split at h
        · next hok =>
          obtain ⟨⟨hrest, hlevels⟩, hending, hlength⟩ := ih htail hok
          cases h
          exact ⟨⟨hrest, Nat.succ_lt_succ hlevels⟩, hending, congrArg (· + 1) hlength⟩
        · cases h
          cases ha
      · cases h
        cases ha
  | case2 v hv =>
    cases depth with
    | zero => cases h
    | succ depth =>
      cases v with
      | nil =>
        cases h
        exact ⟨⟨rfl, Nat.succ_pos depth⟩, rfl, rfl⟩
      | pair => exact absurd rfl (hv _ _ _)
      | _ =>
        obtain ⟨_, _, -, h⟩ := EvalM.bind_eq_ok h
        obtain ⟨_, _, -, h⟩ := EvalM.bind_eq_ok h
        cases h
        cases ha

/-- A list of arguments is put off exactly if it is proper and within the depth. -/
theorem deferred_iff : (∃ a t, m.deferredArguments depth args env s = .ok a t ∧ a.ok = true) ↔
    args.ending = .nil ∧ args.elements.length < depth := by
  constructor
  · rintro ⟨⟨v, ok⟩, t, h, hok⟩
    cases hok
    exact proper_of_deferredArguments m env h
  · rintro ⟨hend, hlevels⟩
    exact ⟨_, _, deferredArguments_of_proper m env hend hlevels s, rfl⟩

theorem chain_of_deferred (h : m.deferredArguments depth args env s = .ok a t)
    (ha : a.ok = true) :
    a.value.ending = .nil ∧ a.value.elements.length = args.elements.length := by
  obtain ⟨hend, hlevels⟩ := deferred_iff.mp ⟨a, t, h, ha⟩
  rw [deferredArguments_of_proper m env hend hlevels s] at h
  cases h
  exact ⟨Store.ending_defer _, (Store.promises_defer _).length_eq⟩

theorem exists_accepts_iff :
    (∃ c, m.strict.accepts c args s = true) ↔ args.ending = .nil := by
  constructor
  · rintro ⟨c, hc⟩
    exact (accepts_strict_iff.mp hc).1
  · intro h
    -- Any names will do, as many as there are elements.
    refine ⟨⟨⟨0⟩, List.replicate args.elements.length "", .nil, ⟨0⟩, false⟩, ?_⟩
    exact accepts_strict_iff.mpr ⟨h, by simp⟩

end Machine

/-- What the pieces of code that go through lists make of a value. -/
structure Value.ListLaws (v : Value) : Prop where
  /-- Walking meets the elements in order; then it is finished, or there is a fault about
  the ending. -/
  walked : v.walk = (v.elements, if v.ending.isNil then none else some (.improperList v.ending))
  finished : v.walk.2 = none ↔ v.ending = .nil
  /-- What takes the elements gets all of them, or is stopped. -/
  taken (m : Machine) (depth : Nat) (self : Call → EvalM Answer) (s : Store) :
    m.runWith depth self (.ofExcept v.listElements) s =
      if v.ending.isNil then .ok v.elements s else .error (s.improperStop depth v.ending) s
  counted (m : Machine) (depth : Nat) (self : Call → EvalM Answer) (s : Store) :
    m.runWith depth self (.ofExcept v.listLength) s =
      if v.ending.isNil then .ok v.elements.length s
      else .error (s.improperStop depth v.ending) s
  /-- A list that is made of the elements is equal to a proper one. -/
  remade (s : Store) : v.walk.2 = none → (s.newList v.walk.1).1.equal v = true
  /-- A proper list with fewer elements than there are levels is put off, and no other. -/
  deferred (m : Machine) (depth : Nat) (env : EnvId) (s : Store) :
    v.walk.2 = none ∧ v.elements.length < depth ↔
      ∃ a t, m.deferredArguments depth v env s = .ok a t ∧ a.ok = true
  deferred_long (m : Machine) (depth : Nat) (env : EnvId) (s : Store) :
    depth ≤ v.elements.length → m.deferredArguments depth v env s = .error .tooDeep s
  /-- A strict closure accepts a proper list of as many elements as it has parameters. -/
  bound (m : Machine) (s : Store) : v.walk.2 = none ↔ ∃ c, m.strict.accepts c v s = true
  bound_by (m : Machine) (c : Closure) (s : Store) :
    m.strict.accepts c v s = true ↔ v.walk.2 = none ∧ c.params.length = v.elements.length
  evaluated (m : Machine) (depth : Nat) (env : EnvId) (s t : Store) (a : Answer) :
    m.evaluateArguments depth v env s = .ok a t → a.ok = true →
      v.walk.2 = none ∧ v.elements.length < depth
  /-- The lists of values and of promises are proper and have the same length. -/
  evaluated_list (m : Machine) (depth : Nat) (env : EnvId) (s t : Store) (a : Answer) :
    m.evaluateArguments depth v env s = .ok a t → a.ok = true →
      a.value.walk.2 = none ∧ a.value.walk.1.length = v.elements.length
  deferred_list (m : Machine) (depth : Nat) (env : EnvId) (s t : Store) (a : Answer) :
    m.deferredArguments depth v env s = .ok a t → a.ok = true →
      a.value.walk.2 = none ∧ a.value.walk.1.length = v.elements.length

theorem Value.finished_iff (v : Value) : v.walk.2 = none ↔ v.ending = .nil := by
  rw [walk_eq, ← isNil_iff]
  cases v.ending.isNil <;> simp

/-- A chain that ends in nil, as walking tells it. -/
theorem Value.finished_of_chain {v : Value} {n : Nat}
    (h : v.ending = .nil ∧ v.elements.length = n) :
    v.walk.2 = none ∧ v.walk.1.length = n := by
  rw [finished_iff, walk_eq]
  exact h

theorem Value.listLaws (v : Value) : v.ListLaws where
  walked := v.walk_eq
  finished := v.finished_iff
  taken m depth self s := by
    by_cases h : v.ending = .nil
    · rw [if_pos (isNil_iff.mpr h), listElements_of_proper h]
      rfl
    · rw [if_neg (mt isNil_iff.mp h)]
      exact Machine.runWith_of_improper (listElements_of_improper h) s
  counted m depth self s := by
    by_cases h : v.ending = .nil
    · rw [if_pos (isNil_iff.mpr h), listLength, listElements_of_proper h]
      rfl
    · rw [if_neg (mt isNil_iff.mp h)]
      refine Machine.runWith_of_improper ?_ s
      rw [listLength, listElements_of_improper h]
      rfl
  remade s h := by
    have hproper := Value.properElements_eq_ok_iff.mp (s.properElements_newList v.walk.1)
    refine equal_of_chain ?_ ?_
    · rw [hproper.2, walk_eq]
    · rw [hproper.1, v.finished_iff.mp h]
  deferred m depth env s := (and_congr_left' v.finished_iff).trans Machine.deferred_iff.symm
  deferred_long m depth env s h := m.deferredArguments_of_long env h s
  bound m s := v.finished_iff.trans Machine.exists_accepts_iff.symm
  bound_by m c s := by
    rw [finished_iff, eq_comm (b := v.elements.length)]
    exact Machine.accepts_strict_iff
  evaluated m depth env s t a h ha :=
    (Machine.chain_of_arguments h ha).1.imp_left v.finished_iff.mpr
  evaluated_list m depth env s t a h ha := finished_of_chain (Machine.chain_of_arguments h ha).2
  deferred_list m depth env s t a h ha := finished_of_chain (Machine.chain_of_deferred h ha)

/-- **All code that goes through lists accepts the same ones**, those that end in nil, except
that the arguments of a call are prepared only within the depth. Walking a list that has been
made meets what it was made of. -/
theorem lists_agree (v : Value) :
    v.ListLaws ∧ ∀ (s : Store) (vs : List Value), (s.newList vs).1.walk = (vs, none) := by
  refine ⟨v.listLaws, fun s vs => ?_⟩
  have hproper := Value.properElements_eq_ok_iff.mp (s.properElements_newList vs)
  rw [Value.walk_eq, hproper.1, hproper.2]
  rfl

/-- A list of two arguments is walked, counted, and bound to two parameters but not to one. It is
put off within three levels and no fewer, and the values of its arguments are a list of two. -/
theorem ticking_listLaws :
    Prelude.ticking.walk = (Prelude.ticking.elements, none) ∧
      (∃ a t, Prelude.machine.deferredArguments 3 Prelude.ticking ⟨0⟩ Prelude.tickingStore =
        .ok a t ∧ a.ok = true ∧ a.value.walk.1.length = 2) ∧
      Prelude.machine.deferredArguments 2 Prelude.ticking ⟨0⟩ Prelude.tickingStore =
        .error .tooDeep Prelude.tickingStore ∧
      Prelude.machine.strict.accepts ⟨⟨0⟩, ["a", "b"], .nil, ⟨0⟩, false⟩ Prelude.ticking
        Prelude.tickingStore = true ∧
      ¬ Prelude.machine.strict.accepts ⟨⟨0⟩, ["a"], .nil, ⟨0⟩, false⟩ Prelude.ticking
        Prelude.tickingStore = true ∧
      ∃ a t, Prelude.machine.evaluateArguments 9 Prelude.ticking ⟨0⟩ Prelude.tickingStore =
        .ok a t ∧ a.value.walk.2 = none ∧ a.value.walk.1.length = 2 := by
  obtain ⟨hlaws, -⟩ := lists_agree Prelude.ticking
  have hfinished : Prelude.ticking.walk.2 = none := rfl
  obtain ⟨a, t, hdeferred, hok⟩ := (hlaws.deferred Prelude.machine 3 ⟨0⟩ Prelude.tickingStore).mp
    ⟨hfinished, by decide⟩
  obtain ⟨b, u, hevaluated, hok'⟩ : ∃ b u, Prelude.machine.evaluateArguments 9 Prelude.ticking ⟨0⟩
      Prelude.tickingStore = .ok b u ∧ b.ok = true := ⟨_, _, rfl, rfl⟩
  refine ⟨hlaws.walked, ⟨a, t, hdeferred, hok, ?_⟩, ?_, ?_, ?_, b, u, hevaluated, ?_⟩
  · exact (hlaws.deferred_list _ _ _ _ _ _ hdeferred hok).2
  · exact hlaws.deferred_long Prelude.machine 2 ⟨0⟩ Prelude.tickingStore (by decide)
  · exact (hlaws.bound_by _ _ _).mpr ⟨hfinished, rfl⟩
  · intro haccepts
    exact absurd ((hlaws.bound_by _ _ _).mp haccepts).2 (by decide)
  · exact hlaws.evaluated_list _ _ _ _ _ _ hevaluated hok'

theorem describe_overlong (s : Store) (depth : Nat) :
    s.describe depth (.integer digitBound) = .error .tooManyDigits := by
  have hdigits : integerText digitBound = .error .tooManyDigits := by simp [integerText]
  cases depth <;> simp only [Store.describe, Store.describeIn, Store.describeWith, hdigits] <;> rfl

/-- A promise that is its own result cannot be described. -/
theorem describe_own_result {s : Store} {id : PromiseId} (h : (s.promise id).shown = .promise id)
    (depth : Nat) : s.describe depth (.promise id) = .error .tooDeep := by
  induction depth with
  | zero => rfl
  | succ depth ih =>
    simp only [Store.describe, Store.describeIn, Store.describeWith, h] at ih ⊢
    rw [ih]
    rfl

/-- An integer that is too long behind a pair is no fault about the ending of the list,
whatever the store and the depth, and neither is a promise that is its own result. And at every
depth there is a proper list that is walked, but neither evaluated nor put off. -/
theorem undescribed_ending :
    (∀ (m : Machine) (depth : Nat) (self : Call → EvalM Answer) (s : Store),
      m.runWith depth self (.ofExcept
        (Value.pair ⟨0⟩ (.integer 1) (.integer digitBound)).listElements) s =
          .error (.raised .digitRange digitRangeText) s) ∧
    (∀ (m : Machine) (depth : Nat) (self : Call → EvalM Answer),
      m.runWith depth self (.ofExcept
        (Value.pair ⟨0⟩ (.integer 1) (.promise ⟨0⟩)).listElements) knot = .error .tooDeep knot) ∧
    ∀ (m : Machine) (depth : Nat) (env : EnvId) (s : Store),
      (form (List.replicate depth (.integer 0))).walk = (List.replicate depth (.integer 0), none) ∧
        m.evaluateArguments depth (form (List.replicate depth (.integer 0))) env s =
          .error .tooDeep s ∧
        m.deferredArguments depth (form (List.replicate depth (.integer 0))) env s =
          .error .tooDeep s := by
  refine ⟨fun m depth self s => ?_, fun m depth self => ?_, fun m depth env s => ⟨?_, ?_, ?_⟩⟩
  · have hstop : s.improperStop depth (.integer digitBound) =
        .raised .digitRange digitRangeText := by
      rw [Store.improperStop, describe_overlong]
      rfl
    have hending : (Value.pair ⟨0⟩ (.integer 1) (.integer digitBound)).ending ≠ .nil := nofun
    exact (Machine.runWith_of_improper (Value.listElements_of_improper hending) s).trans
      (congrArg (EStateM.Result.error · s) hstop)
  · have hstop : knot.improperStop depth (.promise ⟨0⟩) = .tooDeep := by
      rw [Store.improperStop, describe_own_result rfl]
      rfl
    have hending : (Value.pair ⟨0⟩ (.integer 1) (.promise ⟨0⟩)).ending ≠ .nil := nofun
    exact (Machine.runWith_of_improper (Value.listElements_of_improper hending) knot).trans
      (congrArg (EStateM.Result.error · knot) hstop)
  · rw [Value.walk_eq, elements_form, ending_form]
    rfl
  · exact evaluateArguments_zeros m depth env s
  · exact m.deferredArguments_of_long env (by simp [elements_form]) s

end LispCore
