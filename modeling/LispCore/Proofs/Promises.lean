import LispCore.Proofs.HostSession
import LispCore.Proofs.Memo

/-! # What stays of a promise

The expression and the environment of a promise are set for good when it is made,
and its answer, once there, stays: whatever a host asks for, at the end of it, and
at the end of every call inside it, the promises that were there at its start are
there, and those with an answer are the same in every respect (`PromisesKept`).
Between two moments inside an operation a promise may change its answer once more,
since two forces of it can be under way at a time, but it never loses it
(`PromisesGrown`).

That holds of the ways in which evaluation touches the store, and of storing an
answer, and so of every run and every session (`PromiseHistory.law`). -/
namespace LispCore

open Store (Touched)

namespace Store

/-- A promise stays with its expression and environment, and an answer stays some
answer. -/
structure PromisesGrown (s t : Store) : Prop where
  size : s.promises.size ≤ t.promises.size
  expression : ∀ id, id.index < s.promises.size →
    (t.promise id).expression = (s.promise id).expression
  env : ∀ id, id.index < s.promises.size → (t.promise id).env = (s.promise id).env
  forced : ∀ id, id.index < s.promises.size → (s.promise id).forced → (t.promise id).forced

/-- A promise with an answer stays as it is, and every other one keeps its expression
and environment. -/
structure PromisesKept (s t : Store) : Prop extends PromisesGrown s t where
  answered : ∀ id, id.index < s.promises.size → (s.promise id).forced → t.promise id = s.promise id

variable {s t u : Store}

namespace PromisesGrown

theorem refl (s : Store) : PromisesGrown s s :=
  ⟨Nat.le_refl _, fun _ _ => rfl, fun _ _ => rfl, fun _ _ h => h⟩

theorem trans (h : PromisesGrown s t) (h' : PromisesGrown t u) : PromisesGrown s u where
  size := Nat.le_trans h.size h'.size
  expression id hid :=
    (h'.expression id (Nat.lt_of_lt_of_le hid h.size)).trans (h.expression id hid)
  env id hid := (h'.env id (Nat.lt_of_lt_of_le hid h.size)).trans (h.env id hid)
  forced id hid hf := h'.forced id (Nat.lt_of_lt_of_le hid h.size) (h.forced id hid hf)

theorem memoise (s : Store) (id : PromiseId) (a : Answer) : PromisesGrown s (s.memoise id a) where
  size := by simp [Store.memoise]
  expression other _ := by rw [promise_memoise]; split <;> rfl
  env other _ := by rw [promise_memoise]; split <;> rfl
  forced other _ hf := by
    rw [promise_memoise]
    split
    · rfl
    · exact hf

end PromisesGrown

namespace PromisesKept

theorem refl (s : Store) : PromisesKept s s := ⟨.refl s, fun _ _ _ => rfl⟩

theorem trans (h : PromisesKept s t) (h' : PromisesKept t u) : PromisesKept s u where
  toPromisesGrown := h.toPromisesGrown.trans h'.toPromisesGrown
  answered id hid hf := by
    have ht := h.answered id hid hf
    have hu := h'.answered id (Nat.lt_of_lt_of_le hid h.size) (ht ▸ hf)
    exact hu.trans ht

/-- Promises that are there stay as they are. -/
theorem of_promise (hsize : s.promises.size ≤ t.promises.size)
    (h : ∀ id, id.index < s.promises.size → t.promise id = s.promise id) : PromisesKept s t where
  size := hsize
  expression id hid := by rw [h id hid]
  env id hid := by rw [h id hid]
  forced id hid hf := by rwa [h id hid]
  answered id hid _ := h id hid

theorem of_touched (h : Touched s t) : PromisesKept s t := by
  induction h with
  | refl | mark | mapping | root | child | write | emit =>
    exact of_promise (Nat.le_refl _) fun _ _ => rfl
  | trans _ _ ih ih' => exact ih.trans ih'
  | note s level r =>
    unfold Store.note
    split <;> exact of_promise (Nat.le_refl _) fun _ _ => rfl
  | bind s env name v =>
    unfold Store.bind
    split <;> exact of_promise (Nat.le_refl _) fun _ _ => rfl
  | promise s e env =>
    refine of_promise (by simp [newPromise]) fun id hid => ?_
    have hne : id ≠ (s.newPromise e env).1 := by
      rintro rfl
      exact Nat.lt_irrefl _ hid
    rw [promise_newPromise, if_neg hne]

/-- Storing an answer for a promise that had none at the start. -/
theorem memoise (h : PromisesKept s t) {id : PromiseId} (a : Answer)
    (hm : (s.promise id).memo = none) : PromisesKept s (t.memoise id a) where
  toPromisesGrown := h.toPromisesGrown.trans (.memoise t id a)
  answered other hid hf := by
    have hne : id ≠ other := by
      rintro rfl
      simp [Promise.forced, hm] at hf
    rw [promise_memoise, if_neg fun hc => hne hc.1]
    exact h.answered other hid hf

end PromisesKept

end Store

open Store (PromisesGrown PromisesKept)

/-! ## Along a run -/

/-- What a run does to promises: from its start to its end, from the start of every
call in it to the end of that call, and from each of these ends to the next. -/
structure PromiseHistory (s : Store) (l : List Made) (t : Store) : Prop where
  kept : PromisesKept s t
  calls : ∀ c ∈ l, PromisesKept c.start c.after
  since : ∀ c ∈ l, PromisesGrown s c.after
  order : l.Pairwise fun c c' => PromisesGrown c.after c'.after
  until_end : ∀ c ∈ l, PromisesGrown c.after t

namespace PromiseHistory
variable {s t u : Store} {l l' : List Made}

theorem of_touched (h : Touched s t) : PromiseHistory s [] t where
  kept := .of_touched h
  calls _ hc := by cases hc
  since _ hc := by cases hc
  order := .nil
  until_end _ hc := by cases hc

theorem append (h : PromiseHistory s l t) (h' : PromiseHistory t l' u) :
    PromiseHistory s (l ++ l') u where
  kept := h.kept.trans h'.kept
  calls c hc := (List.mem_append.mp hc).elim (h.calls c) (h'.calls c)
  since c hc :=
    (List.mem_append.mp hc).elim (h.since c) fun hc => h.kept.toPromisesGrown.trans (h'.since c hc)
  order := List.pairwise_append.mpr
    ⟨h.order, h'.order, fun c hc c' hc' => (h.until_end c hc).trans (h'.since c' hc')⟩
  until_end c hc := (List.mem_append.mp hc).elim
    (fun hc => (h.until_end c hc).trans h'.kept.toPromisesGrown) (h'.until_end c)

/-- A call that ends now, after the calls inside it. -/
theorem snoc (h : PromiseHistory s l t) {c : Made} (hstart : c.start = s) (hafter : c.after = u)
    (hkept : PromisesKept s u) (hgrown : PromisesGrown t u) : PromiseHistory s (l ++ [c]) u where
  kept := hkept
  calls c' hc := by
    rcases List.mem_append.mp hc with hc | hc
    · exact h.calls c' hc
    · rw [List.mem_singleton.mp hc, hstart, hafter]
      exact hkept
  since c' hc := by
    rcases List.mem_append.mp hc with hc | hc
    · exact h.since c' hc
    · rw [List.mem_singleton.mp hc, hafter]
      exact hkept.toPromisesGrown
  order := by
    refine List.pairwise_append.mpr ⟨h.order, List.pairwise_singleton _ _, fun c₁ hc₁ c₂ hc₂ => ?_⟩
    rw [List.mem_singleton.mp hc₂, hafter]
    exact (h.until_end c₁ hc₁).trans hgrown
  until_end c' hc := by
    rcases List.mem_append.mp hc with hc | hc
    · exact (h.until_end c' hc).trans hgrown
    · rw [List.mem_singleton.mp hc, hafter]
      exact .refl u

theorem law : TraceLaw PromiseHistory where
  touched := of_touched
  append := append
  stopped _ _ h := h.snoc rfl rfl h.kept (.refl _)
  returned _ _ _ h := h.snoc rfl rfl h.kept (.refl _)
  cached {s _ _} _ := (of_touched (.refl s)).snoc rfl rfl (.refl s) (.refl s)
  answered {_ t _ id} a hm h := h.snoc rfl rfl (h.kept.memoise a hm) (.memoise t id a)

end PromiseHistory

/-! ## Promises with an answer and without -/

/-- A promise without an answer shows nil and no success. -/
theorem Promise.unforced (p : Promise) (h : p.forced = false) : p.result = .nil ∧ p.ok = false := by
  have hm : p.memo = none := by simpa [Promise.forced] using h
  simp only [Promise.result, Promise.ok, hm]
  exact ⟨rfl, rfl⟩

/-- Forcing a promise with an answer hands it out: nothing is evaluated and nothing
changes. -/
theorem traced_force_of_forced (m : Machine) (depth : Nat) {s : Store} {id : PromiseId}
    (h : (s.promise id).forced) :
    m.traced (depth + 1) (.force id) s =
      (.ok ⟨(s.promise id).result, (s.promise id).ok⟩ s,
        [.mk (.force id) s (.ok ⟨(s.promise id).result, (s.promise id).ok⟩ s) []]) := by
  obtain ⟨a, ha⟩ := Option.isSome_iff_exists.mp h
  have hx : Machine.forceOnceWith (m.traced depth) id s = (.ok a s, []) := by
    unfold Machine.forceOnceWith
    rw [TraceM.read_bind, ha]
    rfl
  have hanswer : (⟨(s.promise id).result, (s.promise id).ok⟩ : Answer) = a := by
    simp only [Promise.result, Promise.ok, ha]
    rfl
  change TraceM.enclose (.force id) (Machine.forceOnceWith (m.traced depth) id) s = _
  simp only [TraceM.enclose, hx, hanswer]
  rfl

/-- **Promises are settled once and for all.** In every session of a host, from its
start to its end and from the start to the end of every call in it, answers,
failures and stops alike, no promise changes its expression or environment, and one
with an answer stays as it is. At no moment does a promise lose its answer. One
without an answer shows nil and no success, and forcing one with an answer returns
that answer, makes no call and changes nothing. -/
theorem promises_settled (h : Host) (session : List HostOperation) :
    PromisesKept h.store (HostSession.after session h).store ∧
    (∀ c ∈ HostSession.calls session h, PromisesKept c.start c.after ∧
      PromisesGrown h.store c.after ∧ PromisesGrown c.after (HostSession.after session h).store) ∧
    (HostSession.calls session h).Pairwise (fun c c' => PromisesGrown c.after c'.after) ∧
    (∀ (s : Store) (id : PromiseId), (s.promise id).forced = false →
      (s.promise id).result = .nil ∧ (s.promise id).ok = false) ∧
    ∀ (m : Machine) (depth : Nat) (s : Store) (id : PromiseId), (s.promise id).forced →
      m.traced (depth + 1) (.force id) s =
        (.ok ⟨(s.promise id).result, (s.promise id).ok⟩ s,
          [.mk (.force id) s (.ok ⟨(s.promise id).result, (s.promise id).ok⟩ s) []]) := by
  have hrun := PromiseHistory.law.hostSession session h
  refine ⟨hrun.kept, fun c hc => ⟨hrun.calls c hc, hrun.since c hc, hrun.until_end c hc⟩,
    hrun.order, fun s id hf => Promise.unforced _ hf, fun m depth s id hf => ?_⟩
  exact traced_force_of_forced m depth hf

end LispCore
