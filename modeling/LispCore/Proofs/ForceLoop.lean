import LispCore.Proofs.BigStep
import LispCore.Proofs.Memo

/-! # The loop that follows promises

Forcing goes on from result to result while the result is a promise. It keeps no
account of where it has been, so it may go on for ever although each promise on
its way answers at once. `Machine.Follows` says where the loop gets, with as many
links as it needs, and `Machine.Leaves` that it comes to an end.

If all forces on the way return, the loop leaves exactly when it meets no promise
twice and the store it goes through does not grow without bound
(`force_leaves_iff`). A promise that is met again has its answer stored, and so
have all promises since, hence the loop goes round. Without a promise met again
each one forced takes another place of the store. -/
namespace LispCore

namespace Machine

section Definitions
variable (m : Machine) (depth : Nat)

/-- The force of a promise returns, on a machine that follows enough links. -/
def Forces (id : PromiseId) (s : Store) (a : Answer) (t : Store) : Prop :=
  ∃ n, (m.withLinks n).perform depth (.force id) s = .ok a t

/-- The loop on a value in a store has forced some promises, all with success, and
stands at a value in a store. -/
inductive Follows : Value → Store → List PromiseId → Value → Store → Prop
  | start (v : Value) (s : Store) : Follows v s [] v s
  | step {id : PromiseId} {s t u : Store} {a : Answer} {l : List PromiseId} {w : Value} :
      Forces m depth id s a t → a.ok = true → Follows a.value t l w u →
      Follows (.promise id) s (id :: l) w u

/-- Every single force that the loop performs returns. -/
def EachReturns (v : Value) (s : Store) : Prop :=
  ∀ ⦃l id t⦄, m.Follows depth v s l (.promise id) t → ∃ a u, m.Forces depth id t a u

/-- The loop comes to an end. -/
def Leaves (v : Value) (s : Store) : Prop :=
  ∃ n a t, (m.withLinks n).force depth v s = .ok a t

/-- The loop meets no promise twice. -/
def NeverRevisits (v : Value) (s : Store) : Prop :=
  ∀ ⦃l w t⦄, m.Follows depth v s l w t → l.Nodup

/-- The promises of the store stay boundedly many while the loop runs. -/
def StaysBounded (v : Value) (s : Store) : Prop :=
  ∃ bound, ∀ ⦃l w t⦄, m.Follows depth v s l w t → t.promises.size ≤ bound

/-- The loop ends at this value: it is no promise, or one that fails. -/
def Stuck (w : Value) (s : Store) : Prop :=
  ∀ ⦃id⦄, w = .promise id → ∃ a t, m.Forces depth id s a t ∧ a.ok = false

end Definitions

variable {m : Machine} {depth : Nat}

/-! ## Single forces -/

theorem perform_more_links (m : Machine) (depth : Nat) {k n : Nat} (h : k ≤ n) (c : Call) :
    Below (· = .unfinished) Answer ((m.withLinks k).perform depth c)
      ((m.withLinks n).perform depth c) :=
  m.perform_below (E := (· = .unfinished)) (Nat.le_refl depth) (.inr rfl) h (.inl rfl) c

theorem Forces.eventually {id : PromiseId} {s t : Store} {a : Answer} (h : m.Forces depth id s a t) :
    ∃ n, ∀ k, n ≤ k → (m.withLinks k).perform depth (.force id) s = .ok a t := by
  obtain ⟨n, hn⟩ := h
  exact ⟨n, fun k hk => (m.perform_more_links depth hk (.force id)).ok hn⟩

theorem Forces.unique {id : PromiseId} {s t t' : Store} {a a' : Answer}
    (h : m.Forces depth id s a t) (h' : m.Forces depth id s a' t') : a = a' ∧ t = t' := by
  obtain ⟨n, hn⟩ := h.eventually
  obtain ⟨n', hn'⟩ := h'.eventually
  have he := hn (max n n') (Nat.le_max_left n n')
  rw [hn' (max n n') (Nat.le_max_right n n')] at he
  cases he
  exact ⟨rfl, rfl⟩

/-- What a run leaves of the stored answer of a promise. -/
theorem memoHistory_perform (m : Machine) (d : Nat) (c : Call) (s : Store) (id : PromiseId) :
    MemoHistory id s (m.traced d c s).2 (endStore (m.perform d c s)) := by
  rw [← traced_fst]
  exact (MemoHistory.law id).traced m d c s

theorem Forces.size_le {id : PromiseId} {s t : Store} {a : Answer} (h : m.Forces depth id s a t) :
    s.promises.size ≤ t.promises.size := by
  obtain ⟨n, hn⟩ := h
  have := (memoHistory_perform (m.withLinks n) depth (.force id) s id).size
  rwa [hn] at this

/-- A stored answer stays. -/
theorem Forces.memo_keep {id other : PromiseId} {s t : Store} {a b : Answer}
    (h : m.Forces depth id s a t) (hb : s.memo other = some b) : t.memo other = some b := by
  obtain ⟨n, hn⟩ := h
  have hist := memoHistory_perform (m.withLinks n) depth (.force id) s other
  have hfinal := hist.final
  rw [hist.settled (by rw [hb]; rfl), hn, hb] at hfinal
  exact hfinal

/-- A promise that answered with success is one of the store and has its answer stored. -/
theorem Forces.memo_eq {id : PromiseId} {s t : Store} {a : Answer} (h : m.Forces depth id s a t)
    (hok : a.ok = true) : t.memo id = some a ∧ id.index < s.promises.size := by
  obtain ⟨n, hn⟩ := h
  cases depth with
  | zero => cases hn
  | succ d =>
    rcases forceOnceWith_eq_ok hn with ⟨hmemo, rfl⟩ | ⟨hmemo, u, hrun, rfl⟩
    · have hlt : id.index < s.promises.size := by
        refine Nat.lt_of_not_le fun hle => ?_
        have hout : (s.promise id).memo = some .failure := by
          simp [Store.promise, Array.getD_eq_getD_getElem?, Array.getElem?_eq_none hle]
        rw [hout] at hmemo
        cases hmemo
        cases hok
      refine ⟨?_, hlt⟩
      simpa [Store.memo, Store.promise, Array.getD_eq_getD_getElem?, hlt] using hmemo
    · have hlt := Store.lt_of_promise_memo hmemo
      have hsize := (memoHistory_perform (m.withLinks n) d
        (.evaluate (s.promise id).expression (s.promise id).env) s id).size
      rw [hrun] at hsize
      refine ⟨?_, hlt⟩
      rw [Store.memo_memoise, if_pos ⟨rfl, Nat.lt_of_lt_of_le hlt hsize⟩]

/-! ## The way of the loop -/

namespace Follows
variable {v w : Value} {s t u : Store} {l : List PromiseId}

theorem snoc {id : PromiseId} {a : Answer} (h : m.Follows depth v s l (.promise id) t)
    (hf : m.Forces depth id t a u) (hok : a.ok = true) :
    m.Follows depth v s (l ++ [id]) a.value u := by
  generalize hw : Value.promise id = w at h
  induction h with
  | start => subst hw; exact .step hf hok (.start _ _)
  | step hf' hok' _ ih => exact .step hf' hok' (ih hf hw)

theorem size_le (h : m.Follows depth v s l w t) : s.promises.size ≤ t.promises.size := by
  induction h with
  | start => exact Nat.le_refl _
  | step hf _ _ ih => exact Nat.le_trans hf.size_le ih

theorem memo_keep (h : m.Follows depth v s l w t) {id : PromiseId} {b : Answer}
    (hb : s.memo id = some b) : t.memo id = some b := by
  induction h with
  | start => exact hb
  | step hf _ _ ih => exact ih (hf.memo_keep hb)

/-- The promises forced are promises of the store that is reached. -/
theorem index_lt (h : m.Follows depth v s l w t) : ∀ id ∈ l, id.index < t.promises.size := by
  induction h with
  | start => intro id hid; cases hid
  | step hf hok hrest ih =>
    intro id hid
    rcases List.mem_cons.mp hid with rfl | hid
    · have hlt := (hf.memo_eq hok).2
      exact Nat.lt_of_lt_of_le hlt (Nat.le_trans hf.size_le hrest.size_le)
    · exact ih id hid

/-- There is one way: a loop that gets stuck passes through wherever it gets. -/
theorem split {w' : Value} {u' : Store} {l' : List PromiseId} (h : m.Follows depth v s l w t)
    (h' : m.Follows depth v s l' w' u') (hstuck : m.Stuck depth w' u') :
    ∃ l'', l' = l ++ l'' ∧ m.Follows depth w t l'' w' u' := by
  induction h generalizing l' with
  | start => exact ⟨l', rfl, h'⟩
  | step hf hok _ ih =>
    cases h' with
    | start =>
      obtain ⟨b, x, hb, hno⟩ := hstuck rfl
      obtain ⟨rfl, rfl⟩ := hf.unique hb
      rw [hok] at hno; cases hno
    | step hf' hok' hrest =>
      obtain ⟨rfl, rfl⟩ := hf.unique hf'
      obtain ⟨l'', rfl, hw⟩ := ih hrest
      exact ⟨l'', rfl, hw⟩

end Follows

/-- A loop that ends has got stuck somewhere. -/
theorem exists_stuck_of_forceWith {n links : Nat} {v : Value} {s t : Store} {a : Answer}
    (h : forceWith ((m.withLinks n).perform depth) links v s = .ok a t) :
    ∃ l w u, m.Follows depth v s l w u ∧ m.Stuck depth w u := by
  induction links generalizing v s with
  | zero =>
    cases v with
    | promise id => cases h
    | _ => exact ⟨[], _, s, .start _ s, fun _ hw => by cases hw⟩
  | succ links ih =>
    cases v with
    | promise id =>
      obtain ⟨b, s₁, hb, h⟩ := EvalM.bind_eq_ok h
      split at h
      · next hok =>
        obtain ⟨l, w, u, hw, hstuck⟩ := ih h
        exact ⟨id :: l, w, u, .step ⟨n, hb⟩ hok hw, hstuck⟩
      · next hok =>
        refine ⟨[], _, s, .start _ s, fun id' hid => ?_⟩
        cases hid
        exact ⟨b, s₁, ⟨n, hb⟩, Bool.eq_false_iff.mpr hok⟩
    | _ => exact ⟨[], _, s, .start _ s, fun _ hw => by cases hw⟩

theorem Leaves.step {id : PromiseId} {s t : Store} {a : Answer} (hf : m.Forces depth id s a t)
    (h : a.ok = true → m.Leaves depth a.value t) : m.Leaves depth (.promise id) s := by
  obtain ⟨n, hn⟩ := hf.eventually
  by_cases hok : a.ok = true
  · obtain ⟨k, b, u, hk⟩ := h hok
    -- one link for this promise, and enough for its own force and for the rest of the way
    have hforce := hn (max n k + 1) (by omega)
    have hle : k ≤ max n k + 1 := by omega
    have hrest := (forceWith_below (m.perform_more_links depth hle) (Nat.le_max_right n k) (.inl rfl)
      a.value).ok hk
    exact ⟨max n k + 1, b, u, (EvalM.bind_ok hforce).trans (by rw [if_pos hok]; exact hrest)⟩
  · have hforce := hn (n + 1) (by omega)
    exact ⟨n + 1, a, t, (EvalM.bind_ok hforce).trans (by rw [if_neg hok]; rfl)⟩

/-- The loop leaves exactly when it gets stuck. -/
theorem leaves_iff {v : Value} {s : Store} :
    m.Leaves depth v s ↔ ∃ l w u, m.Follows depth v s l w u ∧ m.Stuck depth w u := by
  constructor
  · rintro ⟨n, a, t, h⟩
    exact exists_stuck_of_forceWith h
  · rintro ⟨l, w, u, hw, hstuck⟩
    induction hw with
    | start v s =>
      cases v with
      | promise id =>
        obtain ⟨a, t, hf, hno⟩ := hstuck rfl
        exact .step hf fun hok => by rw [hok] at hno; cases hno
      | _ => exact ⟨0, _, s, rfl⟩
    | step hf hok _ ih => exact .step hf fun _ => ih hstuck

/-! ## A loop that leaves forces each promise once -/

/-- Where a way along some promises to a value begins. -/
def front : List PromiseId → Value → Value
  | [], w => w
  | id :: _, _ => .promise id

/-- Each promise of the list has the next one as its result, and the last one `w`. -/
def Linked (s : Store) : List PromiseId → Value → Prop
  | [], _ => True
  | id :: l, w => s.memo id = some (.success (front l w)) ∧ Linked s l w

/-- The loop leaves a trail of results behind. -/
theorem Follows.linked {v w : Value} {s t : Store} {l : List PromiseId}
    (h : m.Follows depth v s l w t) : front l w = v ∧ Linked t l w := by
  induction h with
  | start => exact ⟨rfl, trivial⟩
  | @step id s t u a l w hf hok hrest ih =>
    have hmemo := hrest.memo_keep (hf.memo_eq hok).1
    have ha : a = .success (front l w) := by
      rw [ih.1]
      obtain ⟨value, ok⟩ := a
      cases hok
      rfl
    exact ⟨rfl, ha ▸ hmemo, ih.2⟩

namespace Linked
variable {s : Store} {w : Value} {l l' : List PromiseId}

theorem of_append {l₁ l₂ : List PromiseId} (h : Linked s (l₁ ++ l₂) w) : Linked s l₂ w := by
  induction l₁ with
  | nil => exact h
  | cons id l₁ ih => exact ih h.2

theorem memo_of_mem (h : Linked s l w) {id : PromiseId} (hid : id ∈ l) :
    ∃ v, s.memo id = some (.success v) := by
  obtain ⟨l₁, l₂, rfl⟩ := List.append_of_mem hid
  exact ⟨_, (of_append h).1⟩

/-- Of two trails from one place to one value, the longer passes the value. -/
theorem mem_of_length_lt (h : Linked s l w) (h' : Linked s l' w) (hfront : front l w = front l' w)
    (hlt : l'.length < l.length) : ∃ id ∈ l, w = .promise id := by
  induction l' generalizing l with
  | nil =>
    cases l with
    | nil => simp at hlt
    | cons id l => exact ⟨id, List.mem_cons_self, hfront.symm⟩
  | cons id' l' ih =>
    cases l with
    | nil => simp at hlt
    | cons id l =>
      cases hfront
      have hnext : front l w = front l' w := by
        simpa [Answer.success] using h.1.symm.trans h'.1
      obtain ⟨id, hid, hw⟩ := ih h.2 h'.2 hnext (by simpa using hlt)
      exact ⟨id, List.mem_cons_of_mem _ hid, hw⟩

/-- A trail that does not end on itself has no promise twice. -/
theorem nodup (h : Linked s l w) (hw : ∀ id ∈ l, w ≠ .promise id) : l.Nodup := by
  induction l with
  | nil => exact List.nodup_nil
  | cons id l ih =>
    have hl := ih h.2 fun id hid => hw id (List.mem_cons_of_mem _ hid)
    refine List.nodup_cons.mpr ⟨fun hid => ?_, hl⟩
    obtain ⟨l₁, l₂, rfl⟩ := List.append_of_mem hid
    have hlt : (id :: l₂).length < (id :: (l₁ ++ id :: l₂)).length := by
      simp only [List.length_cons, List.length_append]
      omega
    obtain ⟨id', hid', hend⟩ := mem_of_length_lt h (of_append h.2) rfl hlt
    exact hw id' hid' hend

end Linked

theorem Forces.eq_memo {id : PromiseId} {s t : Store} {a b : Answer} (h : m.Forces depth id s a t)
    (hb : s.memo id = some b) : a = b := by
  obtain ⟨n, hn⟩ := h
  cases depth with
  | zero => cases hn
  | succ d =>
    rcases forceOnceWith_eq_ok hn with ⟨hmemo, rfl⟩ | ⟨hmemo, -⟩
    · rw [Store.promise_memo hb] at hmemo
      cases hmemo
      rfl
    · rw [Store.promise_memo hb] at hmemo
      cases hmemo

theorem nodup_of_stuck {v w : Value} {s t : Store} {l : List PromiseId}
    (h : m.Follows depth v s l w t) (hstuck : m.Stuck depth w t) : l.Nodup := by
  have hlinked := h.linked.2
  refine hlinked.nodup fun id hid hw => ?_
  obtain ⟨a, u, hf, hno⟩ := hstuck hw
  obtain ⟨x, hx⟩ := hlinked.memo_of_mem hid
  rw [hf.eq_memo hx] at hno
  cases hno

/-! ## When the loop leaves -/

/-- A loop whose forces all return and that does not leave goes any number of links. -/
theorem exists_follows_of_not_leaves {v : Value} {s : Store} (h : m.EachReturns depth v s)
    (hno : ¬ m.Leaves depth v s) (k : Nat) : ∃ l w t, m.Follows depth v s l w t ∧ l.length = k := by
  induction k with
  | zero => exact ⟨[], v, s, .start v s, rfl⟩
  | succ k ih =>
    obtain ⟨l, w, t, hw, hlen⟩ := ih
    have hgo : ¬ m.Stuck depth w t := fun hstuck => hno (leaves_iff.mpr ⟨l, w, t, hw, hstuck⟩)
    obtain ⟨id, himp⟩ := Classical.not_forall.mp hgo
    obtain ⟨rfl, hid⟩ := Classical.not_imp.mp himp
    obtain ⟨a, u, hf⟩ := h hw
    have hok : a.ok = true := by
      cases hok : a.ok with
      | true => rfl
      | false => exact absurd ⟨a, u, hf, hok⟩ hid
    exact ⟨l ++ [id], a.value, u, hw.snoc hf hok, by simp [hlen]⟩

/-- Promises that are all different and have places below `b` are at most `b`. -/
theorem length_le_of_nodup {l : List PromiseId} {b : Nat} (h : l.Nodup)
    (hlt : ∀ id ∈ l, id.index < b) : l.length ≤ b := by
  induction b generalizing l with
  | zero =>
    cases l with
    | nil => exact Nat.le_refl 0
    | cons id l => exact absurd (hlt id List.mem_cons_self) (Nat.not_lt_zero _)
  | succ b ih =>
    -- all but the promise with the last place are below it
    have hrest : (l.erase ⟨b⟩).length ≤ b := by
      refine ih (h.erase _) fun id hid => ?_
      obtain ⟨hne, hmem⟩ := h.mem_erase_iff.mp hid
      have hle := hlt id hmem
      have hindex : id.index ≠ b := fun he => hne (by rw [← he])
      omega
    rw [List.length_erase] at hrest
    split at hrest <;> omega

/-- **The loop leaves exactly when it revisits no promise and the store stays
bounded**, if the forces on its way return. -/
theorem leaves_iff_bounded {v : Value} {s : Store} (h : m.EachReturns depth v s) :
    m.Leaves depth v s ↔ m.NeverRevisits depth v s ∧ m.StaysBounded depth v s := by
  constructor
  · intro hleaves
    obtain ⟨l', w', u', hend, hstuck⟩ := leaves_iff.mp hleaves
    refine ⟨fun l w t hw => ?_, u'.promises.size, fun l w t hw => ?_⟩
    · obtain ⟨l'', rfl, -⟩ := hw.split hend hstuck
      exact (List.nodup_append.mp (nodup_of_stuck hend hstuck)).1
    · obtain ⟨l'', -, hrest⟩ := hw.split hend hstuck
      exact hrest.size_le
  · rintro ⟨hnodup, b, hb⟩
    refine Classical.byContradiction fun hno => ?_
    obtain ⟨l, w, t, hw, hlen⟩ := exists_follows_of_not_leaves h hno (b + 1)
    have hle : l.length ≤ b := length_le_of_nodup (hnodup hw) fun id hid =>
      Nat.lt_of_lt_of_le (hw.index_lt id hid) (hb hw)
    omega

end Machine

/-! ## Runs that do not end -/

/-- Calls that one loop makes: each forces the promise at which the loop stands, in
the store in which it stands there, is answered with success, and the loop goes on
from the answer. It stands at a promise in the end. -/
inductive Iterations : Value → Store → List Made → Prop
  | nil (id : PromiseId) (s : Store) : Iterations (.promise id) s []
  | cons {id : PromiseId} {s t : Store} {a : Answer} {inner loop : List Made} :
      a.ok = true → Iterations a.value t loop →
      Iterations (.promise id) s (.mk (.force id) s (.ok a t) inner :: loop)

/-- The trace holds a loop that went `n` links and did not come to an end. -/
def HasLoop (n : Nat) (l : List Made) : Prop :=
  ∃ v s loop, Iterations v s loop ∧ loop.length = n ∧ loop.Sublist l

/-- If all nested calls returned, what exhausts the links is a loop that follows
all of them. -/
def Exhausts (n : Nat) (α : Type) (x _y : TraceM α) : Prop :=
  ∀ s t, (x s).1 = .error .unfinished t → (∀ c ∈ (x s).2, c.Returned) → HasLoop n (x s).2

theorem HasLoop.mono {n : Nat} {l l' : List Made} (h : HasLoop n l) (hl : l.Sublist l') :
    HasLoop n l' := by
  obtain ⟨v, s, loop, hloop, hlen, hsub⟩ := h
  exact ⟨v, s, loop, hloop, hlen, hsub.trans hl⟩

namespace Exhausts
variable {n : Nat} {m : Machine}

theorem lift {α : Type} {x : EvalM α} {y : TraceM α} (h : ∀ s t, x s ≠ .error .unfinished t) :
    Exhausts n α (liftM x) y :=
  fun s t he => (h s t he).elim

theorem sequential : Sequential (Exhausts n) where
  pure a := fun s t he => by cases he
  bind {_ _ x _ f _} hx hf := by
    intro s t he hret
    rcases x.cases s with ⟨a, s', l, h⟩ | ⟨e, s', l, h⟩
    · rw [TraceM.bind_ok h] at he hret ⊢
      have hl := hf a s' t he fun c hc => hret c (List.mem_append_right l hc)
      exact hl.mono (List.sublist_append_right l _)
    · rw [TraceM.bind_error h] at he hret ⊢
      cases he
      have hl := hx s t (by rw [h]) (by rw [h]; exact hret)
      rwa [h] at hl

/-- A call that stopped is itself a nested call that did not return. -/
theorem traced (d : Nat) (c : Call) (y : TraceM Answer) : Exhausts n Answer (m.traced d c) y := by
  intro s t he hret
  obtain ⟨inner, hr⟩ := traced_snd m d c s
  rw [hr] at he hret
  obtain ⟨a, u, ha⟩ := hret _ (List.mem_append_right inner (List.mem_singleton.mpr rfl))
  cases ha.symm.trans he

/-- A loop that runs out of links has followed all of them. -/
theorem iterations {d links : Nat} {v : Value} {s t : Store}
    (he : (Machine.forceWith (m.traced d) links v s).1 = .error .unfinished t)
    (hret : ∀ c ∈ (Machine.forceWith (m.traced d) links v s).2, c.Returned) :
    ∃ loop, Iterations v s loop ∧ loop.length = links ∧
      loop.Sublist (Machine.forceWith (m.traced d) links v s).2 := by
  induction links generalizing v s with
  | zero =>
    cases v with
    | promise id => exact ⟨[], .nil id s, rfl, List.nil_sublist _⟩
    | _ => cases he
  | succ links ih =>
    cases v with
    | promise id =>
      obtain ⟨inner, hr⟩ := traced_snd m d (.force id) s
      change ((m.traced d (.force id) >>= _) s).1 = _ at he
      change ∀ c ∈ ((m.traced d (.force id) >>= _) s).2, _ at hret
      change ∃ loop : List Made, _ ∧ _ ∧ loop.Sublist ((m.traced d (.force id) >>= _) s).2
      cases hp : m.perform d (.force id) s with
      | ok a u =>
        rw [hp] at hr
        rw [TraceM.bind_ok hr] at he hret ⊢
        split at he
        · next hok =>
          rw [if_pos hok] at hret ⊢
          obtain ⟨loop, hloop, hlen, hsub⟩ :=
            ih he fun c hc => hret c (List.mem_append_right _ hc)
          refine ⟨[.mk (.force id) s (.ok a u) inner] ++ loop, .cons hok hloop, by simp [hlen], ?_⟩
          exact (List.sublist_append_right inner _).append hsub
        · cases he
      | error e u =>
        rw [hp] at hr
        rw [TraceM.bind_error hr] at he hret
        obtain ⟨a, u, ha⟩ := hret _ (List.mem_append_right inner (List.mem_singleton.mpr rfl))
        cases ha
    | _ => cases he

theorem forceWith (d : Nat) (v : Value) (y : TraceM Answer) :
    Exhausts m.links Answer (Machine.forceWith (m.traced d) m.links v) y := by
  intro s t he hret
  obtain ⟨loop, hloop, hlen, hsub⟩ := iterations he hret
  exact ⟨v, s, loop, hloop, hlen, hsub⟩

end Exhausts

theorem NativeAction.ne_unfinished {m m' : Machine} {d d' : Nat} {α : Type} {x y : EvalM α}
    (h : NativeAction m m' d d' α x y) (s t : Store) : x s ≠ .error .unfinished t := by
  cases h with
  | report p a =>
    unfold Machine.reportFailure
    split <;> exact fun h => by cases h
  | raise _ fault =>
    unfold EvalM.raise
    split
    · exact fun h => by cases h
    · next why _ => exact fun h => why.stop_ne_unfinished (EStateM.Result.error.inj h).1
  | render v =>
    intro h
    obtain ⟨why, hwhy⟩ := render_error h
    exact why.stop_ne_unfinished hwhy.symm
  | _ => exact fun h => by cases h

/-- **Only a loop of a native does not end by itself.** -/
theorem Made.Stopped.hasLoop {m : Machine} {t : Store} {c : Made} (h : c.Stopped .unfinished t)
    (hc : c.IsStep m) :
    (∃ p params env, c.call = .native p params env) ∧ HasLoop m.links c.inner := by
  obtain ⟨call, start, outcome, inner⟩ := c
  obtain ⟨hout, hin, hcan⟩ := h
  cases call with
  | evaluate | arguments | deferred =>
    obtain ⟨why, hwhy⟩ := hcan
    exact absurd hwhy.symm why.stop_ne_unfinished
  | force id => cases hcan
  | closure c params => cases hcan
  | native p params env =>
    refine ⟨⟨p, params, env, rfl⟩, ?_⟩
    rcases hc with hdeep | ⟨d', hstep⟩
    · cases hdeep.symm.trans hout
    · have hrespects : NativeRespects m m d' d' (Exhausts m.links) :=
        ⟨Exhausts.sequential, rfl, fun h => h.eq ▸ .lift h.ne_unfinished⟩
      have hrun := hrespects.applyNativeWith (fun c => .traced d' c (m.traced d' c))
        (fun v => .forceWith d' v _) p params env start t
      change m.applyNativeWith d' (m.traced d') p params env start = (outcome, inner) at hstep
      rw [hstep] at hrun
      exact hrun hout hin

end LispCore
