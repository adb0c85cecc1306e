import LispCore.Proofs.Session

/-! # How often a promise is evaluated

A promise stores the answer of its expression when the evaluation of the
expression ends, whatever has been stored in the meantime. So the answers stored
for a promise are exactly those of the forces that found none stored and
returned (`stored`), and the promise always holds the last of them.

Once an answer is there, none is stored again (`MemoHistory.settled`). Two are
stored only if a force of the promise returned inside another force of the same
promise that returned too. That this is the only way is
`stored_length_le_one_iff`, over every session. It does happen: an expression
can force its own promise, see to it by a binding that this inner force ends,
and then give another answer (`selfForcing_stores_twice`). -/
namespace LispCore

open Store (Touched)

namespace Store

/-- The stored answer of a promise. A place outside the store has none. -/
def memo (s : Store) (id : PromiseId) : Option Answer := s.promises[id.index]?.bind (·.memo)

theorem memo_newPromise (s : Store) (e : Value) (env : EnvId) (id : PromiseId) :
    (s.newPromise e env).2.memo id = s.memo id := by
  simp only [memo, newPromise, Array.getElem?_push]
  split
  · next h => simp [h]
  · rfl

theorem memo_memoise (s : Store) (id other : PromiseId) (a : Answer) :
    (s.memoise id a).memo other =
      if id = other ∧ id.index < s.promises.size then some a else s.memo other := by
  obtain ⟨i⟩ := id
  obtain ⟨j⟩ := other
  simp only [memo, memoise, Array.getElem?_modify, PromiseId.mk.injEq]
  by_cases h : i = j
  · subst h
    by_cases hi : i < s.promises.size <;> simp [hi]
  · simp [h]

theorem promise_memo {s : Store} {id : PromiseId} {a : Answer} (h : s.memo id = some a) :
    (s.promise id).memo = some a := by
  simp only [memo, Option.bind_eq_some_iff] at h
  obtain ⟨p, hp, ha⟩ := h
  simpa [promise, Array.getD_eq_getD_getElem?, hp] using ha

/-- A promise without an answer is one of the store. -/
theorem lt_of_promise_memo {s : Store} {id : PromiseId} (h : (s.promise id).memo = none) :
    id.index < s.promises.size := by
  refine Nat.lt_of_not_le fun hle => ?_
  simp [promise, Array.getD_eq_getD_getElem?, Array.getElem?_eq_none hle] at h

theorem memo_eq_none {s : Store} {id : PromiseId} (h : (s.promise id).memo = none) :
    s.memo id = none := by
  cases hm : s.memo id with
  | none => rfl
  | some a => rw [promise_memo hm] at h; cases h

/-- Touching the store makes promises at most, and leaves all stored answers. -/
theorem Touched.promises {s t : Store} (h : Touched s t) :
    s.promises.size ≤ t.promises.size ∧ ∀ id, t.memo id = s.memo id := by
  induction h with
  | refl | mark | mapping | root | child | write | emit => exact ⟨Nat.le_refl _, fun _ => rfl⟩
  | trans _ _ ih ih' => exact ⟨Nat.le_trans ih.1 ih'.1, fun id => (ih'.2 id).trans (ih.2 id)⟩
  | note s level r =>
    unfold Store.note
    split <;> exact ⟨Nat.le_refl _, fun _ => rfl⟩
  | promise s e env => exact ⟨by simp [newPromise], s.memo_newPromise e env⟩
  | bind s env name v =>
    unfold Store.bind
    split <;> exact ⟨Nat.le_refl _, fun _ => rfl⟩

end Store

/-! ## The answers stored in a run -/

/-- The answer that the call stored for a promise, if it was a force of it that
found none stored and returned. -/
def Made.memoised? (id : PromiseId) (c : Made) : Option Answer :=
  match c.call, c.outcome with
  | .force other, .ok a _ =>
    if other = id ∧ (c.start.promise id).memo.isNone then some a else none
  | _, _ => none

/-- The answers stored for a promise in a run, in their order. -/
def stored (id : PromiseId) (l : List Made) : List Answer := l.filterMap (·.memoised? id)

/-- The call is a force of the promise that stored an answer, and inside it another
force of the same promise had stored one. -/
def Made.Reenters (id : PromiseId) (c : Made) : Prop :=
  (c.memoised? id).isSome ∧ ∃ c' ∈ c.inner, (c'.memoised? id).isSome

section Stored
variable {id : PromiseId}

theorem stored_append (l l' : List Made) : stored id (l ++ l') = stored id l ++ stored id l' :=
  List.filterMap_append

theorem stored_eq_nil_iff {l : List Made} :
    stored id l = [] ↔ ∀ c ∈ l, ¬ (c.memoised? id).isSome := by
  simp [stored, List.filterMap_eq_nil_iff]

theorem stored_singleton_eq_nil {c : Made} (h : c.memoised? id = none) : stored id [c] = [] := by
  simp [stored, h]

theorem memoised?_error {c : Call} {s t : Store} {e : Stop} {l : List Made} :
    Made.memoised? id (.mk c s (.error e t) l) = none := by
  cases c <;> rfl

theorem memoised?_other {c : Call} {s t : Store} {a : Answer} {l : List Made}
    (h : ∀ id, c ≠ .force id) : Made.memoised? id (.mk c s (.ok a t) l) = none := by
  cases c with
  | force id => exact absurd rfl (h id)
  | _ => rfl

theorem memoised?_force (id : PromiseId) {other : PromiseId} {s : Store} (t : Store) (a : Answer)
    (l : List Made) (h : (s.promise other).memo = none) :
    Made.memoised? id (.mk (.force other) s (.ok a t) l) = if other = id then some a else none := by
  by_cases ho : other = id
  · subst ho; simp [Made.memoised?, Made.call, Made.outcome, Made.start, h]
  · simp [Made.memoised?, Made.call, Made.outcome, ho]

theorem memoised?_cached {other : PromiseId} {s t : Store} {a b : Answer} {l : List Made}
    (h : (s.promise other).memo = some b) :
    Made.memoised? id (.mk (.force other) s (.ok a t) l) = none := by
  by_cases ho : other = id
  · subst ho; simp [Made.memoised?, Made.call, Made.outcome, Made.start, h]
  · simp [Made.memoised?, Made.call, Made.outcome, ho]

end Stored

/-! ## The law of stored answers -/

/-- What the stored answers of a run say about one promise: at the end of the run,
and at the end of every call in it, the promise holds the last answer stored so
far, or what it held at the start; and if it held an answer, none is stored. -/
structure MemoHistory (id : PromiseId) (s : Store) (l : List Made) (t : Store) : Prop where
  size : s.promises.size ≤ t.promises.size
  final : t.memo id = (stored id l).getLast?.or (s.memo id)
  during : ∀ k c, l[k]? = some c →
    c.after.memo id = (stored id (l.take (k + 1))).getLast?.or (s.memo id)
  settled : (s.memo id).isSome → stored id l = []

namespace MemoHistory
variable {id : PromiseId} {s t u : Store} {l l' : List Made}

theorem of_touched (h : Touched s t) : MemoHistory id s [] t where
  size := h.promises.1
  final := by simpa [stored] using h.promises.2 id
  during k c hk := by simp at hk
  settled _ := rfl

theorem append (h : MemoHistory id s l t) (h' : MemoHistory id t l' u) :
    MemoHistory id s (l ++ l') u where
  size := Nat.le_trans h.size h'.size
  final := by rw [h'.final, h.final, stored_append, List.getLast?_append, Option.or_assoc]
  during k c hk := by
    by_cases hlt : k < l.length
    · rw [List.getElem?_append_left hlt] at hk
      rw [h.during k c hk, List.take_append_of_le_length hlt]
    · have hle : l.length ≤ k := Nat.le_of_not_lt hlt
      rw [List.getElem?_append_right hle] at hk
      have ht : (l ++ l').take (k + 1) = l ++ l'.take (k - l.length + 1) := by
        rw [List.take_append, List.take_of_length_le (by omega)]
        congr 2
        omega
      rw [h'.during _ c hk, h.final, ht, stored_append, List.getLast?_append, Option.or_assoc]
  settled hs := by
    have hl := h.settled hs
    have ht : t.memo id = s.memo id := by rw [h.final, hl]; rfl
    rw [stored_append, hl, h'.settled (ht ▸ hs)]
    rfl

/-- A call at the end of a run, with what it stores itself. -/
theorem snoc (h : MemoHistory id s l t) {c : Made} (hsize : t.promises.size ≤ u.promises.size)
    (ha : c.after = u) (hu : u.memo id = (stored id [c]).getLast?.or (t.memo id))
    (hs : (s.memo id).isSome → stored id [c] = []) : MemoHistory id s (l ++ [c]) u := by
  have hfinal : u.memo id = (stored id (l ++ [c])).getLast?.or (s.memo id) := by
    rw [hu, h.final, stored_append, List.getLast?_append, Option.or_assoc]
  refine ⟨Nat.le_trans h.size hsize, hfinal, fun k c' hk => ?_, fun hs' => ?_⟩
  · by_cases hlt : k < l.length
    · rw [List.getElem?_append_left hlt] at hk
      rw [h.during k c' hk, List.take_append_of_le_length hlt]
    · have hlen := (List.getElem?_eq_some_iff.mp hk).1
      have hk' : k = l.length := by simp at hlen; omega
      subst hk'
      have hc : c = c' := by simpa using hk
      rw [← hc, ha, hfinal, List.take_of_length_le (by simp)]
  · rw [stored_append, h.settled hs', hs hs']
    rfl

/-- A call that stores nothing. -/
theorem snoc_none (h : MemoHistory id s l t) {c : Made} (hc : c.memoised? id = none)
    (ha : c.after = t) : MemoHistory id s (l ++ [c]) t := by
  have hn := stored_singleton_eq_nil hc
  exact h.snoc (Nat.le_refl _) ha (by rw [hn]; rfl) fun _ => hn

theorem answered {other : PromiseId} (a : Answer) (hm : (s.promise other).memo = none)
    (h : MemoHistory id s l t) :
    MemoHistory id s (l ++ [.mk (.force other) s (.ok a (t.memoise other a)) l])
      (t.memoise other a) := by
  have hsize : t.promises.size = (t.memoise other a).promises.size := by
    simp [Store.memoise]
  have hlt : other.index < t.promises.size := Nat.lt_of_lt_of_le (Store.lt_of_promise_memo hm) h.size
  have hc := memoised?_force id (t.memoise other a) a l hm
  refine h.snoc (Nat.le_of_eq hsize) rfl ?_ fun hs => ?_
  · rw [Store.memo_memoise]
    by_cases ho : other = id
    · subst ho
      simp [stored, hc, hlt]
    · simp [stored, hc, ho]
  · have ho : other ≠ id := by
      rintro rfl
      rw [Store.memo_eq_none hm] at hs
      cases hs
    exact stored_singleton_eq_nil (hc.trans (if_neg ho))

theorem law (id : PromiseId) : TraceLaw (MemoHistory id) where
  touched := of_touched
  append := append
  stopped _ _ h := h.snoc_none memoised?_error rfl
  returned _ _ hc h := h.snoc_none (memoised?_other hc) rfl
  cached hm := (of_touched (.refl _)).snoc_none (memoised?_cached hm) rfl
  answered := answered

end MemoHistory

/-! ## When a promise is evaluated twice -/

/-- In a trace, what ended inside a call stands right before the call. -/
def Nested (_s : Store) (l : List Made) (_t : Store) : Prop :=
  ∀ c ∈ l, c.inner ++ [c] <:+: l

namespace Nested
variable {s t u : Store} {l l' : List Made}

theorem append (h : Nested s l t) (h' : Nested t l' u) : Nested s (l ++ l') u := by
  intro c hc
  rcases List.mem_append.mp hc with hc | hc
  · exact (h c hc).trans (List.prefix_append l l').isInfix
  · exact (h' c hc).trans (List.suffix_append l l').isInfix

theorem snoc (h : Nested s l t) (c : Call) (r : EStateM.Result Stop Store Answer) :
    Nested s (l ++ [.mk c s r l]) u := by
  intro c' hc
  rcases List.mem_append.mp hc with hc | hc
  · exact (h c' hc).trans (List.prefix_append l _).isInfix
  · rw [List.mem_singleton.mp hc]
    exact List.infix_refl _

theorem nil : Nested s [] t := by
  intro c hc
  cases hc

theorem law : TraceLaw Nested where
  touched _ := nil
  append := append
  stopped c _ h := h.snoc c _
  returned c _ _ h := h.snoc c _
  cached {s _ _} _ := Nested.snoc (t := s) nil _ _
  answered _ _ h := h.snoc _ _

/-- A call that re-enters its promise leaves two stored answers behind. -/
theorem two_le_length (h : Nested s l t) {id : PromiseId} {c : Made} (hc : c ∈ l)
    (hr : c.Reenters id) : 2 ≤ (stored id l).length := by
  obtain ⟨hout, c', hc', hin⟩ := hr
  have hsub : (stored id (c.inner ++ [c])).length ≤ (stored id l).length :=
    ((h c hc).sublist.filterMap _).length_le
  have hpos : 0 < (stored id c.inner).length := by
    refine List.length_pos_iff.mpr fun hnil => ?_
    exact stored_eq_nil_iff.mp hnil c' hc' hin
  have hone : (stored id [c]).length = 1 := by
    obtain ⟨a, ha⟩ := Option.isSome_iff_exists.mp hout
    simp [stored, ha]
  rw [stored_append, List.length_append, hone] at hsub
  omega

end Nested

/-- Without a re-entry a promise has at most one answer stored. -/
def OnceUnlessReentered (id : PromiseId) (s : Store) (l : List Made) (t : Store) : Prop :=
  MemoHistory id s l t ∧ ((∀ c ∈ l, ¬ c.Reenters id) → (stored id l).length ≤ 1)

namespace OnceUnlessReentered
variable {id : PromiseId} {s t u : Store} {l l' : List Made}

theorem append (h : OnceUnlessReentered id s l t) (h' : OnceUnlessReentered id t l' u) :
    OnceUnlessReentered id s (l ++ l') u := by
  refine ⟨h.1.append h'.1, fun hno => ?_⟩
  have hl := h.2 fun c hc => hno c (List.mem_append_left _ hc)
  have hl' := h'.2 fun c hc => hno c (List.mem_append_right _ hc)
  rw [stored_append, List.length_append]
  -- an answer stored in the first part settles the promise for the second
  cases hst : stored id l with
  | nil => simpa using hl'
  | cons a as =>
    have hmemo : (t.memo id).isSome := by
      rw [h.1.final, hst]
      cases hlast : (a :: as).getLast? with
      | none => simp at hlast
      | some b => rfl
    rw [h'.1.settled hmemo]
    simpa [hst] using hl

theorem snoc_none (h : OnceUnlessReentered id s l t) {c : Made} (hc : c.memoised? id = none)
    (ha : c.after = t) : OnceUnlessReentered id s (l ++ [c]) t := by
  refine ⟨h.1.snoc_none hc ha, fun hno => ?_⟩
  rw [stored_append, stored_singleton_eq_nil hc, List.append_nil]
  exact h.2 fun c hc => hno c (List.mem_append_left _ hc)

theorem answered {other : PromiseId} (a : Answer) (hm : (s.promise other).memo = none)
    (h : OnceUnlessReentered id s l t) :
    OnceUnlessReentered id s (l ++ [.mk (.force other) s (.ok a (t.memoise other a)) l])
      (t.memoise other a) := by
  refine ⟨h.1.answered a hm, fun hno => ?_⟩
  have hc := memoised?_force id (t.memoise other a) a l hm
  by_cases ho : other = id
  · rw [if_pos ho] at hc
    have hnil : stored id l = [] := by
      refine stored_eq_nil_iff.mpr fun c' hc' hin => ?_
      refine hno _ (List.mem_append_right _ (List.mem_singleton.mpr rfl)) ⟨?_, c', hc', hin⟩
      rw [hc]
      rfl
    rw [stored_append, hnil]
    simp [stored, hc]
  · rw [if_neg ho] at hc
    rw [stored_append, stored_singleton_eq_nil hc, List.append_nil]
    exact h.2 fun c hc => hno c (List.mem_append_left _ hc)

theorem of_touched (h : Touched s t) : OnceUnlessReentered id s [] t :=
  ⟨.of_touched h, fun _ => Nat.zero_le 1⟩

theorem law (id : PromiseId) : TraceLaw (OnceUnlessReentered id) where
  touched := of_touched
  append := append
  stopped _ _ h := h.snoc_none memoised?_error rfl
  returned _ _ hc h := h.snoc_none (memoised?_other hc) rfl
  cached hm := (of_touched (.refl _)).snoc_none (memoised?_cached hm) rfl
  answered := answered

end OnceUnlessReentered

/-- **A promise is evaluated at most once, unless it is re-entered.** In every
session, at the end of each call and of the whole, a promise holds the last answer
stored for it, or what it held at the start. It has no answer stored if it held
one, and at most one is stored exactly when no force of it stores an answer inside
another force of it that stores one. -/
theorem stored_length_le_one_iff (session : List Served) (s : Store) (id : PromiseId) :
    (Session.store session s).memo id =
        (stored id (Session.calls session s)).getLast?.or (s.memo id) ∧
      (∀ k c, (Session.calls session s)[k]? = some c → c.after.memo id =
        (stored id ((Session.calls session s).take (k + 1))).getLast?.or (s.memo id)) ∧
      ((s.memo id).isSome → stored id (Session.calls session s) = []) ∧
      ((stored id (Session.calls session s)).length ≤ 1 ↔
        ∀ c ∈ Session.calls session s, ¬ c.Reenters id) := by
  obtain ⟨history, once⟩ := (OnceUnlessReentered.law id).session session s
  refine ⟨history.final, history.during, history.settled, fun hle c hc hr => ?_, once⟩
  have := (Nested.law.session session s).two_le_length hc hr
  omega

/-- A promise whose expression binds a flag, forces the promise itself and answers
2, unless the flag is bound already: then it answers 1. -/
def selfForcing : Store where
  mappings := #[(Prelude.frame ["if", "do", "define", "bound?", "force"]).insert "t" (.promise ⟨0⟩)]
  environments := #[⟨⟨0⟩, none⟩]
  promises := #[⟨form [.symbol "if", form [.symbol "bound?", .symbol "flag"], .integer 1,
    form [.symbol "do", form [.symbol "define", .symbol "flag", .integer 1],
      form [.symbol "force", .symbol "t"], .integer 2]], ⟨0⟩, none⟩]

/-- One force of a promise can store two answers for it, the second over the first. -/
theorem selfForcing_stores_twice :
    selfForcing.memo ⟨0⟩ = none ∧
      stored ⟨0⟩ (Session.calls [⟨Prelude.machine, 40, .call (.force ⟨0⟩)⟩] selfForcing) =
        [.success (.integer 1), .success (.integer 2)] ∧
      (Session.store [⟨Prelude.machine, 40, .call (.force ⟨0⟩)⟩] selfForcing).memo ⟨0⟩ =
        some (.success (.integer 2)) :=
  ⟨rfl, rfl, rfl⟩

end LispCore
