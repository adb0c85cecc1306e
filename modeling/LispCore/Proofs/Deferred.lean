import LispCore.Proofs.BigStep
import LispCore.Proofs.Memo
import Mathlib.Data.List.Forall2

/-! # The promises of arguments

Putting off a proper list of arguments succeeds if it has fewer elements than there are
levels, and goes too deep otherwise. `Store.defer` says what it gives: one promise for each
argument, made from the last to the first, and a list of them in the order of the arguments.
Nothing else in the store changes but the count of marks. -/
namespace LispCore

namespace Store

/-- Puts the elements of a list off, the last one first, and lists the promises. -/
def defer (s : Store) (env : EnvId) : List Value → Value × Store
  | [] => (.nil, s)
  | e :: es =>
    let (tail, s) := s.defer env es
    let (id, s) := s.newPromise e env
    s.newPair (.promise id) tail

variable {s : Store} {env : EnvId}

theorem defer_cons (e : Value) (es : List Value) :
    s.defer env (e :: es) =
      ((s.defer env es).2.newPromise e env).2.newPair
        (.promise ((s.defer env es).2.newPromise e env).1) (s.defer env es).1 := rfl

theorem frames_defer (es : List Value) :
    (s.defer env es).2.mappings = s.mappings ∧
      (s.defer env es).2.environments = s.environments := by
  induction es with
  | nil => exact ⟨rfl, rfl⟩
  | cons e es ih => exact ih

/-- Each promise is for the argument in its place, and has no answer. -/
theorem promises_defer (es : List Value) :
    List.Forall₂ (fun v e => ∃ id, v = .promise id ∧
      (s.defer env es).2.promise id = ⟨e, env, none⟩) (s.defer env es).1.elements es := by
  induction es with
  | nil => exact .nil
  | cons e es ih =>
    have hkeep : ∀ id e', (s.defer env es).2.promise id = ⟨e', env, none⟩ →
        (s.defer env (e :: es)).2.promise id = ⟨e', env, none⟩ := by
      intro id e' hid
      have hlt := lt_of_promise_memo (congrArg Promise.memo hid)
      have hne : id ≠ ((s.defer env es).2.newPromise e env).1 := by
        intro h
        rw [h] at hlt
        exact Nat.lt_irrefl _ hlt
      show ((s.defer env es).2.newPromise e env).2.promise id = _
      rw [promise_newPromise, if_neg hne, hid]
    refine .cons ⟨_, rfl, ?_⟩ (ih.imp fun v e' ⟨id, hv, hid⟩ => ⟨id, hv, hkeep id e' hid⟩)
    show ((s.defer env es).2.newPromise e env).2.promise _ = _
    rw [promise_newPromise]
    exact if_pos rfl

theorem ending_defer (es : List Value) : (s.defer env es).1.ending = .nil := by
  induction es with
  | nil => rfl
  | cons e es ih => exact ih

end Store

namespace Machine
variable (m : Machine) (env : EnvId)

/-- A proper list is put off within a level for each of its elements and one for its end. -/
theorem deferredArguments_of_proper {args : Value} {d : Nat} (h : args.ending = .nil)
    (hd : args.elements.length < d) (s : Store) :
    m.deferredArguments d args env s =
      .ok (.success (s.defer env args.elements).1) (s.defer env args.elements).2 := by
  induction args using Value.elements.induct generalizing d with
  | case1 mark first rest ih =>
    obtain ⟨d, rfl⟩ : ∃ e, d = e + 1 := ⟨d - 1, by omega⟩
    have hrest : rest.elements.length < d := by simpa using hd
    exact (EvalM.bind_ok (ih h hrest)).trans rfl
  | case2 v hv =>
    obtain ⟨d, rfl⟩ : ∃ e, d = e + 1 := ⟨d - 1, by omega⟩
    cases v with
    | nil => rfl
    | pair => exact absurd rfl (hv _ _ _)
    | _ => cases h

/-- A list that has an element for each level goes too deep before anything is put off. -/
theorem deferredArguments_of_long {args : Value} {d : Nat} (h : d ≤ args.elements.length)
    (s : Store) : m.deferredArguments d args env s = .error .tooDeep s := by
  induction d generalizing args with
  | zero => rfl
  | succ d ih =>
    cases args with
    | pair mark first rest =>
      have hrest : d ≤ rest.elements.length := by simpa using h
      exact EvalM.bind_error (ih hrest)
    | _ => cases h

/-- Only proper lists within the depth are put off. -/
theorem proper_of_deferredArguments {args params : Value} {d : Nat} {s t : Store}
    (h : m.deferredArguments d args env s = .ok (.success params) t) :
    args.ending = .nil ∧ args.elements.length < d := by
  induction args using Value.elements.induct generalizing d params t with
  | case1 mark first rest ih =>
    cases d with
    | zero => cases h
    | succ d =>
      obtain ⟨tail, u, htail, h⟩ := EvalM.bind_eq_ok h
      split at h
      · next hok =>
        obtain ⟨v, ok⟩ := tail
        cases hok
        obtain ⟨hend, hlength⟩ := ih htail
        exact ⟨hend, by simpa using hlength⟩
      · cases h
  | case2 v hv =>
    cases d with
    | zero => cases h
    | succ d =>
      cases v with
      | nil => exact ⟨rfl, Nat.succ_pos d⟩
      | pair => exact absurd rfl (hv _ _ _)
      | _ =>
        obtain ⟨_, _, -, h⟩ := EvalM.bind_eq_ok h
        obtain ⟨_, _, -, h⟩ := EvalM.bind_eq_ok h
        cases h

end Machine

theorem derives_deferred (m : Machine) (quote : Store → Value → String → Prop) (env : EnvId)
    {args : Value} (h : args.ending = .nil) (s : Store) :
    Derives m quote (.call (.deferred args env)) s (.success (s.defer env args.elements).1)
      (s.defer env args.elements).2 := by
  induction args using Value.elements.induct with
  | case1 mark first rest ih => exact .defer (ih h) rfl
  | case2 v hv =>
    cases v with
    | nil => exact .noDeferred
    | pair => exact absurd rfl (hv _ _ _)
    | _ => cases h

end LispCore
