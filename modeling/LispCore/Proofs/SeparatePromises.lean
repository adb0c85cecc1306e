import LispCore.Proofs.ArgumentOrder
import LispCore.Proofs.Deferred
import Mathlib.Data.List.Nodup

/-! # Deferred arguments are separate promises

A list of arguments is put off as a whole or not at all. A proper list gives one new promise
for each argument, and these differ from one another and from all promises there are
(`Store.elements_defer`). They are made from the last argument backwards, after the end of
the list has been seen, so an improper list leaves no promise behind, and neither does one that
has more elements than there are levels. Nothing is evaluated for it and nothing that was there
changes.

Since the promises differ, forcing one of them stores an answer for another one only by a
force of that other one inside (`unforced_or_forced_inside`). -/
namespace LispCore

namespace Store

/-- The places of `n` new promises, the last one made first. -/
def newPlaces (s : Store) (n : Nat) : List PromiseId :=
  (List.range n).reverse.map fun k => ⟨s.promises.size + k⟩

/-- Whatever was there is what it was, and nothing has become visible outside. -/
structure Undisturbed (s t : Store) : Prop where
  environments : t.environments = s.environments
  mappings : t.mappings = s.mappings
  promises : ∀ id : PromiseId, id.index < s.promises.size → t.promise id = s.promise id
  effects : t.effects = s.effects

variable {s : Store} {env : EnvId}

theorem newPlaces_succ (n : Nat) :
    s.newPlaces (n + 1) = ⟨s.promises.size + n⟩ :: s.newPlaces n := by
  simp [newPlaces, List.range_succ]

theorem nodup_newPlaces (n : Nat) : (s.newPlaces n).Nodup := by
  refine List.Nodup.map_on ?_ (List.nodup_reverse.mpr List.nodup_range)
  intro i _ j _ h
  simpa using h

theorem le_of_mem_newPlaces {n : Nat} {id : PromiseId} (h : id ∈ s.newPlaces n) :
    s.promises.size ≤ id.index := by
  simp only [newPlaces, List.mem_map] at h
  obtain ⟨k, -, rfl⟩ := h
  exact Nat.le_add_right _ _

theorem size_defer (es : List Value) :
    (s.defer env es).2.promises.size = s.promises.size + es.length := by
  induction es with
  | nil => rfl
  | cons e es ih =>
    rw [defer_cons]
    simp only [newPair, newMark, newPromise, Array.size_push, ih, List.length_cons]
    omega

/-- The list holds the new promises. -/
theorem elements_defer (es : List Value) :
    (s.defer env es).1.elements = (s.newPlaces es.length).map .promise := by
  induction es with
  | nil => rfl
  | cons e es ih =>
    rw [defer_cons, List.length_cons, newPlaces_succ, List.map_cons, ← ih, ← size_defer]
    rfl

theorem promise_defer_of_lt {id : PromiseId} (h : id.index < s.promises.size) (es : List Value) :
    (s.defer env es).2.promise id = s.promise id := by
  induction es with
  | nil => rfl
  | cons e es ih =>
    have hne : id ≠ ((s.defer env es).2.newPromise e env).1 := by
      intro heq
      have hindex : id.index = (s.defer env es).2.promises.size := congrArg PromiseId.index heq
      rw [size_defer] at hindex
      omega
    change ((s.defer env es).2.newPromise e env).2.promise id = _
    rw [promise_newPromise, if_neg hne, ih]

theorem effects_defer (es : List Value) : (s.defer env es).2.effects = s.effects := by
  induction es with
  | nil => rfl
  | cons e es ih => exact ih

theorem undisturbed_defer (es : List Value) : s.Undisturbed (s.defer env es).2 where
  environments := (frames_defer es).2
  mappings := (frames_defer es).1
  promises _ h := promise_defer_of_lt h es
  effects := effects_defer es

theorem undisturbed_refl (s : Store) : s.Undisturbed s := ⟨rfl, rfl, fun _ _ => rfl, rfl⟩

theorem undisturbed_note (s : Store) (level : Int) (r : Record) :
    s.Undisturbed (s.note level r) := by
  unfold note
  split <;> exact ⟨rfl, rfl, fun _ _ => rfl, rfl⟩

end Store

/-! ## What putting off does -/

/-- Whatever the store, only calls of a certain kind are made. -/
def CallsOnly (P : Call → Prop) (α : Type) (x _y : TraceM α) : Prop := ∀ s, ∀ c ∈ (x s).2, P c.call

theorem CallsOnly.sequential {P : Call → Prop} : Sequential (CallsOnly P) where
  pure _ := fun _ _ hc => absurd hc List.not_mem_nil
  bind {_ _ x _ f _} hx hf := by
    intro s c hc
    have hxs := hx s
    rcases x.cases s with ⟨a, t, l, h⟩ | ⟨e, t, l, h⟩
    · rw [h] at hxs
      rw [TraceM.bind_ok h] at hc
      exact (List.mem_append.mp hc).elim (hxs c) (hf a t c)
    · rw [h] at hxs
      rw [TraceM.bind_error h] at hc
      exact hxs c hc

theorem CallsOnly.enclose {P : Call → Prop} {call : Call} (hcall : P call) {x : TraceM Answer}
    (hx : CallsOnly P Answer x x) :
    CallsOnly P Answer (TraceM.enclose call x) (TraceM.enclose call x) := by
  intro s c hc
  rcases List.mem_append.mp hc with hc | hc
  · exact hx s c hc
  · rw [List.mem_singleton.mp hc]
    exact hcall

/-- What the evaluator does itself calls nothing. -/
theorem CallsOnly.evaluator {P : Call → Prop} (m : Machine) (d : Nat) :
    EvaluatorRespects m m d d (CallsOnly P) :=
  ⟨CallsOnly.sequential, fun _ _ _ hc => absurd hc List.not_mem_nil⟩

section Deferring
variable {m : Machine} {depth : Nat} {env : EnvId} {args : Value}

/-- Putting off a list puts off the rests of it, and calls nothing else. -/
theorem calls_deferred (m : Machine) (depth : Nat) (env : EnvId) (args : Value) (s : Store) :
    ∀ c ∈ (Task.call (.deferred args env)).calls m depth s,
      ∃ rest, c.call = .deferred rest env := by
  change ∀ c ∈ (m.traced depth (.deferred args env) s).2, _
  induction depth generalizing args s with
  | zero =>
    exact CallsOnly.enclose (P := fun c => ∃ rest, c = .deferred rest env) ⟨args, rfl⟩
      (fun _ _ hc => absurd hc List.not_mem_nil) s
  | succ depth ih =>
    have hown := CallsOnly.evaluator (P := fun c => ∃ rest, c = .deferred rest env) m depth
    refine CallsOnly.enclose (P := fun c => ∃ rest, c = .deferred rest env) ⟨args, rfl⟩ ?_ s
    cases args with
    | pair mark first rest =>
      refine hown.bind (ih rest) fun tail => ?_
      split
      · refine hown.bind (hown.action (.newPromise _ _)) fun id => ?_
        exact hown.bind (hown.action (.newPair _ _)) fun _ => hown.pure _
      · exact hown.pure _
    | nil => exact hown.pure _
    | _ => exact hown.improperArguments _

theorem improperArguments_apply (m : Machine) (depth : Nat) (tail : Value) (s : Store) :
    (m.improperArguments depth tail : EvalM Answer) s = atImproperEnd m depth tail s := by
  have herases := (erases_respects m depth).evaluator.improperArguments tail
  rw [← herases]
  exact congrArg Prod.fst (improperArguments_traced m depth tail s)

/-- An improper end is met after all elements, a level for each of them. -/
theorem deferredArguments_of_improper (h : args.ending ≠ .nil) (hd : args.elements.length ≤ depth)
    (s : Store) : m.deferredArguments (depth + 1) args env s =
      atImproperEnd m (depth - args.elements.length) args.ending s := by
  induction args using Value.elements.induct generalizing depth with
  | case1 mark first rest ih =>
    obtain ⟨depth, rfl⟩ : ∃ d, depth = d + 1 := ⟨depth - 1, by simp at hd; omega⟩
    have hrest := ih h (by simpa using hd)
    change (m.deferredArguments (depth + 1) rest env >>= _) s = _
    rw [Value.ending_pair, Value.elements_pair, List.length_cons, Nat.add_sub_add_right]
    rcases atImproperEnd_cases m (depth - rest.elements.length) rest.ending s with
      ⟨t, hend⟩ | ⟨why, t, hend⟩
    · rw [hend] at hrest ⊢
      rw [EvalM.bind_ok hrest]
      rfl
    · rw [hend] at hrest ⊢
      rw [EvalM.bind_error hrest]
  | case2 v hv =>
    cases v with
    | nil => exact absurd rfl h
    | pair => exact absurd rfl (hv _ _ _)
    | _ => exact improperArguments_apply m depth _ s

theorem undisturbed_atImproperEnd (m : Machine) (depth : Nat) (tail : Value) (s : Store) :
    s.Undisturbed (endStore (atImproperEnd m depth tail s)) := by
  unfold atImproperEnd
  split
  · exact s.undisturbed_note _ _
  · exact s.undisturbed_refl

end Deferring

/-! ## Forcing one of several promises -/

/-- A promise that is there and has no answer in the list has none. -/
theorem Store.forced_eq_false {s : Store} {id : PromiseId} (hid : id.index < s.promises.size)
    (h : s.memo id = none) : (s.promise id).forced = false := by
  have hsame : s.memo id = (s.promise id).memo := by
    simp [Store.memo, Store.promise, Array.getD_eq_getD_getElem?, hid]
  rw [Promise.forced, ← hsame, h]
  rfl

/-- A task leaves a promise without an answer unless a force of it returns inside. -/
theorem Task.unforced_or_forced (m : Machine) (depth : Nat) (task : Task) {s : Store}
    {id : PromiseId} (h : (s.promise id).forced = false) :
    ((endStore (task.run m depth m.links s)).promise id).forced = false ∨
      ∃ c ∈ task.calls m depth s, c.call = .force id ∧ c.Returned := by
  have hnone : (s.promise id).memo = none := by simpa [Promise.forced] using h
  have hhistory := (MemoHistory.law id).task m depth task s
  rw [task.traced_fst] at hhistory
  by_cases hstill : (endStore (task.run m depth m.links s)).memo id = none
  · have hid := Nat.lt_of_lt_of_le (Store.lt_of_promise_memo hnone) hhistory.size
    exact .inl (Store.forced_eq_false hid hstill)
  · exact .inr (hhistory.exists_force (Store.memo_eq_none hnone) hstill)

/-- Forcing one promise leaves another without an answer, unless the evaluation of its
expression forces that one. -/
theorem unforced_or_forced_inside (m : Machine) (depth : Nat) {i j : PromiseId} (hij : i ≠ j)
    {s : Store} (h : (s.promise j).forced = false) :
    ((endStore (m.perform depth (.force i) s)).promise j).forced = false ∨
      ∃ inner, (m.traced depth (.force i) s).2 =
          inner ++ [.mk (.force i) s (m.perform depth (.force i) s) inner] ∧
        ∃ c ∈ inner, c.call = .force j ∧ c.Returned := by
  rcases (Task.call (.force i)).unforced_or_forced m depth h with hstill | ⟨c, hc, hcall, hret⟩
  · exact .inl hstill
  · obtain ⟨inner, htrace⟩ := traced_snd m depth (.force i) s
    refine .inr ⟨inner, congrArg Prod.snd htrace, c, ?_, hcall, hret⟩
    change c ∈ (m.traced depth (.force i) s).2 at hc
    rw [htrace] at hc
    rcases List.mem_append.mp hc with hinner | hlast
    · exact hinner
    · -- the last call is the force of the promise itself
      rw [List.mem_singleton.mp hlast] at hcall
      exact absurd (Call.force.inj hcall) hij

/-- Whenever and by whatever machine the first promise is forced, the second is left without
an answer, unless the evaluation of the first forces it. Where forcing follows the results of
the first, the second is left without an answer unless it is forced on the way. -/
structure ForcedApart (i j : PromiseId) : Prop where
  alone (m : Machine) (depth : Nat) (s : Store) : (s.promise j).forced = false →
    ((endStore (m.perform depth (.force i) s)).promise j).forced = false ∨
      ∃ inner, (m.traced depth (.force i) s).2 =
          inner ++ [.mk (.force i) s (m.perform depth (.force i) s) inner] ∧
        ∃ c ∈ inner, c.call = .force j ∧ c.Returned
  followed (m : Machine) (depth : Nat) (s : Store) : (s.promise j).forced = false →
    ((endStore (m.force depth (.promise i) s)).promise j).forced = false ∨
      ∃ c ∈ (Task.resolve (.promise i)).calls m depth s, c.call = .force j ∧ c.Returned

theorem forcedApart {i j : PromiseId} (hij : i ≠ j) : ForcedApart i j where
  alone m depth _ h := unforced_or_forced_inside m depth hij h
  followed m depth _ h := (Task.resolve (.promise i)).unforced_or_forced m depth h

/-- The promises of a proper list, by the places they have. -/
theorem Store.forall₂_newPlaces (s : Store) (env : EnvId) (es : List Value) :
    List.Forall₂ (fun id e => (s.defer env es).2.promise id = ⟨e, env, none⟩)
      (s.newPlaces es.length) es := by
  have hpromises : List.Forall₂ (fun v e => ∃ id, v = .promise id ∧
      (s.defer env es).2.promise id = ⟨e, env, none⟩) (s.defer env es).1.elements es :=
    promises_defer es
  rw [elements_defer, List.forall₂_map_left_iff] at hpromises
  refine hpromises.imp fun id e h => ?_
  obtain ⟨id', hid, hpromise⟩ := h
  cases hid
  exact hpromise

/-- **Deferred arguments are separate promises.** Putting off a list of arguments succeeds
exactly if the list is proper and has fewer elements than there are levels. Then the answer is a
proper list of as many promises, each for the argument in its place and the given environment
and without an answer; they differ from one another and from all promises of the store, so that
forcing one leaves the others alone. An improper list fails with a note that quotes its end, or
stops if that cannot be written. A list with an element for each level goes too deep. In all
cases nothing is called but for the rests of the list, and what was in the store is unchanged. -/
theorem deferred_separate (m : Machine) (depth : Nat) (args : Value) (env : EnvId) (s : Store) :
    ((∃ a t, m.deferredArguments depth args env s = .ok a t ∧ a.ok = true) ↔
        args.ending = .nil ∧ args.elements.length < depth) ∧
      (args.ending = .nil → args.elements.length < depth → ∃ params ids t,
        m.deferredArguments depth args env s = .ok (.success params) t ∧
        params.properElements = .ok (ids.map .promise) ∧
        List.Forall₂ (fun id e => t.promise id = ⟨e, env, none⟩) ids args.elements ∧
        ids.Nodup ∧ (∀ id ∈ ids, s.promises.size ≤ id.index) ∧
        ∀ i ∈ ids, ∀ j ∈ ids, i ≠ j → ForcedApart i j) ∧
      (args.ending ≠ .nil → args.elements.length < depth →
        (∀ text, s.render (depth - 1 - args.elements.length) args.ending = .ok text →
          m.deferredArguments depth args env s = .ok .failure
            (m.noted .evaluator ("Improper argument list tail: " ++ text) s)) ∧
        ∀ why, s.render (depth - 1 - args.elements.length) args.ending = .error why →
          m.deferredArguments depth args env s = .error why.stop s) ∧
      (depth ≤ args.elements.length →
        m.deferredArguments depth args env s = .error .tooDeep s) ∧
      s.Undisturbed (endStore (m.deferredArguments depth args env s)) ∧
      ∀ c ∈ (Task.call (.deferred args env)).calls m depth s,
        ∃ rest, c.call = .deferred rest env := by
  have haccepts : (∃ a t, m.deferredArguments depth args env s = .ok a t ∧ a.ok = true) →
      args.ending = .nil ∧ args.elements.length < depth := by
    rintro ⟨⟨params, ok⟩, t, hrun, hok⟩
    cases hok
    exact m.proper_of_deferredArguments env hrun
  rcases Nat.lt_or_ge args.elements.length depth with hlevels | hlong
  · by_cases hend : args.ending = .nil
    · have hrun := m.deferredArguments_of_proper env hend hlevels s
      refine ⟨⟨haccepts, fun _ => ⟨_, _, hrun, rfl⟩⟩, fun _ _ => ?_, fun h => absurd hend h,
        fun hle => absurd hle (by omega), ?_, calls_deferred m depth env args s⟩
      · refine ⟨_, s.newPlaces args.elements.length, _, hrun, ?_,
          s.forall₂_newPlaces env args.elements, s.nodup_newPlaces _,
          fun id => s.le_of_mem_newPlaces, fun i _ j _ => forcedApart⟩
        exact Value.properElements_eq_ok_iff.mpr ⟨s.ending_defer _, s.elements_defer _⟩
      · rw [hrun]
        exact s.undisturbed_defer args.elements
    · obtain ⟨depth, rfl⟩ : ∃ d, depth = d + 1 := ⟨depth - 1, by omega⟩
      have hrun : m.deferredArguments (depth + 1) args env s =
          atImproperEnd m (depth - args.elements.length) args.ending s :=
        deferredArguments_of_improper hend (by omega) s
      refine ⟨⟨haccepts, fun h => absurd h.1 hend⟩, fun h => absurd h hend, fun _ _ => ?_,
        fun hle => absurd hle (by omega), ?_, calls_deferred m (depth + 1) env args s⟩
      · rw [hrun, Nat.add_sub_cancel]
        refine ⟨fun text htext => ?_, fun why hwhy => ?_⟩
        · rw [atImproperEnd, htext]
        · rw [atImproperEnd, hwhy]
      · rw [hrun]
        exact undisturbed_atImproperEnd m _ args.ending s
  · have hrun := m.deferredArguments_of_long env hlong s
    refine ⟨⟨haccepts, fun h => absurd h.2 (by omega)⟩, fun _ h => absurd h (by omega),
      fun _ h => absurd h (by omega), fun _ => hrun, ?_, calls_deferred m depth env args s⟩
    rw [hrun]
    exact s.undisturbed_refl

namespace Prelude

/-- Two arguments that make numbers visible. -/
def ticking : Value :=
  form [form [.symbol "tick", .integer 1], form [.symbol "tick", .integer 2]]

/-- An environment with what they call. -/
def tickingStore : Store where
  mappings := #[frame ["tick"]]
  environments := #[⟨⟨0⟩, none⟩]

end Prelude

/-- Two arguments are put off with nothing made visible, and forcing the second leaves the
first without an answer. -/
theorem ticking_deferred :
    (Prelude.ticking.ending = .nil ∧ Prelude.ticking.elements.length < 20) ∧
      ∃ params i j t, Prelude.machine.deferredArguments 20 Prelude.ticking ⟨0⟩
          Prelude.tickingStore = .ok (.success params) t ∧
        params.properElements = .ok [.promise i, .promise j] ∧ i ≠ j ∧ ForcedApart j i ∧
        t.effects = #[] ∧ (t.promise i).forced = false ∧
        (endStore (Prelude.machine.perform 20 (.force j) t)).effects = #[.integer 2] ∧
        ((endStore (Prelude.machine.perform 20 (.force j) t)).promise i).forced = false := by
  have hlevels : Prelude.ticking.elements.length < 20 := by decide
  obtain ⟨params, ids, t, hrun, hparams, -, -, -, hapart⟩ := (deferred_separate Prelude.machine 20
    Prelude.ticking ⟨0⟩ Prelude.tickingStore).2.1 rfl hlevels
  have hids : ids = [⟨1⟩, ⟨0⟩] := by
    cases hrun
    have hmap : ids.map Value.promise = [.promise ⟨1⟩, .promise ⟨0⟩] := Except.ok.inj hparams.symm
    exact List.map_injective_iff.mpr (fun _ _ => Value.promise.inj) hmap
  subst hids
  refine ⟨⟨rfl, hlevels⟩, params, ⟨1⟩, ⟨0⟩, t, hrun, hparams, by decide, ?_, ?_⟩
  · exact hapart ⟨0⟩ (by simp) ⟨1⟩ (by simp) (by decide)
  · cases hrun
    exact ⟨rfl, rfl, rfl, rfl⟩

/-- A list with an improper end stops instead of failing, at every depth, if the end is a
promise that is its own result. And at every depth there is a proper list that goes too deep. -/
theorem dottedKnot_not_deferred :
    Prelude.machine.perform 2 (.force ⟨0⟩) looseKnot = .ok (.success (.promise ⟨0⟩)) knot ∧
      dottedKnot.ending ≠ .nil ∧
      (∀ depth, Prelude.machine.deferredArguments depth dottedKnot ⟨0⟩ knot =
        .error .tooDeep knot) ∧
      ∀ depth, (form (List.replicate depth (.integer 0))).ending = .nil ∧
        Prelude.machine.deferredArguments depth (form (List.replicate depth (.integer 0))) ⟨0⟩
          knot = .error .tooDeep knot := by
  have hend : dottedKnot.ending ≠ .nil := nofun
  refine ⟨rfl, hend, fun depth => ?_, fun depth => ⟨ending_form _, ?_⟩⟩
  · match depth with
    | 0 | 1 => rfl
    | depth + 2 =>
      have hknot : knot.render (depth + 1 - dottedKnot.elements.length) dottedKnot.ending =
          .error .tooDeep := render_own_result rfl _
      rw [deferredArguments_of_improper hend (Nat.le_add_left 1 depth), atImproperEnd, hknot]
      rfl
  · exact Prelude.machine.deferredArguments_of_long ⟨0⟩ (by simp [elements_form]) knot

end LispCore
