import LispCore.Proofs.ForceLoop
import LispCore.Proofs.Promises
import LispCore.Proofs.RaisedErrors

/-! # Forcing is complete and idempotent

A promise may have another promise as its result, and forcing goes on to the end of
such a chain. While it does, a later promise runs code that may reach the earlier
ones, from within their own evaluation as well. None of this disturbs what forcing has
passed: an answer that is stored stays stored (`Machine.Forces.memo_keep`). So when
forcing comes back, the whole chain stands in the store, with the answer that was given
at its end (`Machine.resultChain_of_forceWith`), and forcing once more only reads it off
(`Machine.forceWith_resultChain`). -/
namespace LispCore

namespace Store

/-- The promises on the way from a value along their results, as long as these are
successes, and the answer that the way ends with. -/
inductive ResultChain (s : Store) : Value → List PromiseId → Answer → Prop
  | plain {v : Value} : v.tag ≠ .promise → ResultChain s v [] (.success v)
  | failed {id : PromiseId} {a : Answer} : (s.promise id).memo = some a → a.ok = false →
      ResultChain s (.promise id) [id] a
  | next {id : PromiseId} {a b : Answer} {l : List PromiseId} :
      (s.promise id).memo = some a → a.ok = true → ResultChain s a.value l b →
      ResultChain s (.promise id) (id :: l) b

/-- A value leads to a promise if the promise is met on the way along the results of
promises that succeeded. -/
inductive Leads (s : Store) (v : Value) : PromiseId → Prop
  | start {id : PromiseId} : v = .promise id → Leads s v id
  | next {id other : PromiseId} : Leads s v id → (s.promise id).ok = true →
      (s.promise id).result = .promise other → Leads s v other

/-- All that a value leads to has been forced, down to one answer: it is a list of
promises, none of them twice, each with the next one as its result, and the answer is
that of the last. -/
structure Resolved (s : Store) (v : Value) (l : List PromiseId) (a : Answer) : Prop where
  met : ∀ p, s.Leads v p ↔ p ∈ l
  nodup : l.Nodup
  forced : ∀ p ∈ l, (s.promise p).forced = true
  link : ∀ before p q after, l = before ++ p :: q :: after →
    (s.promise p).ok = true ∧ (s.promise p).result = .promise q
  last : ∀ before p, l = before ++ [p] → (s.promise p).result = a.value ∧ (s.promise p).ok = a.ok

variable {s : Store} {v : Value} {l l' : List PromiseId} {a b : Answer} {id : PromiseId}

theorem forced_of_memo (h : (s.promise id).memo = some a) : (s.promise id).forced = true := by
  rw [Promise.forced, h]
  rfl

theorem result_of_memo (h : (s.promise id).memo = some a) : (s.promise id).result = a.value := by
  rw [Promise.result, h]
  rfl

theorem ok_of_memo (h : (s.promise id).memo = some a) : (s.promise id).ok = a.ok := by
  rw [Promise.ok, h]
  rfl

/-- From a promise on, what the result leads to is led to. -/
theorem Leads.of_result {other : PromiseId} (hmemo : (s.promise id).memo = some a)
    (hok : a.ok = true) (h : s.Leads a.value other) : s.Leads (.promise id) other := by
  have hsuccess : (s.promise id).ok = true := (ok_of_memo hmemo).trans hok
  induction h with
  | start hv => exact .next (.start rfl) hsuccess ((result_of_memo hmemo).trans hv)
  | next _ hok' hresult ih => exact .next ih hok' hresult

namespace ResultChain

theorem unique (h : s.ResultChain v l a) (h' : s.ResultChain v l' b) : l = l' := by
  induction h generalizing l' b with
  | plain hv =>
    cases h' with
    | plain => rfl
    | failed | next => exact absurd rfl hv
  | failed hmemo hok =>
    cases h' with
    | plain hv => exact absurd rfl hv
    | failed => rfl
    | next hmemo' hok' =>
      rw [hmemo] at hmemo'
      cases hmemo'
      rw [hok] at hok'
      cases hok'
  | next hmemo hok _ ih =>
    cases h' with
    | plain hv => exact absurd rfl hv
    | failed hmemo' hok' =>
      rw [hmemo] at hmemo'
      cases hmemo'
      rw [hok] at hok'
      cases hok'
    | next hmemo' _ hrest =>
      rw [hmemo] at hmemo'
      cases hmemo'
      rw [ih hrest]

/-- A promise on the chain has the rest of the chain for its own. -/
theorem from_mem {before after : List PromiseId} (h : s.ResultChain v l a)
    (hl : l = before ++ id :: after) : s.ResultChain (.promise id) (id :: after) a := by
  induction h generalizing before with
  | plain => simp at hl
  | failed hmemo hok =>
    cases before with
    | nil =>
      cases hl
      exact .failed hmemo hok
    | cons p before => simp at hl
  | next hmemo hok hrest ih =>
    cases before with
    | nil =>
      cases hl
      exact .next hmemo hok hrest
    | cons p before =>
      cases hl
      exact ih rfl

/-- A chain that came back to one of its promises would not end. -/
theorem nodup (h : s.ResultChain v l a) : l.Nodup := by
  induction h with
  | plain => exact List.nodup_nil
  | failed => simp
  | @next id a b l hmemo hok hrest ih =>
    refine List.nodup_cons.mpr ⟨fun hmem => ?_, ih⟩
    obtain ⟨before, after, hl⟩ := List.append_of_mem hmem
    have hagain : s.ResultChain (.promise id) (id :: after) b := hrest.from_mem hl
    have hlength := congrArg List.length ((next hmemo hok hrest).unique hagain)
    simp only [hl, List.length_cons, List.length_append] at hlength
    omega

theorem forced (h : s.ResultChain v l a) : ∀ p ∈ l, (s.promise p).forced = true := by
  intro p hp
  obtain ⟨before, after, hl⟩ := List.append_of_mem hp
  cases h.from_mem hl with
  | failed hmemo | next hmemo => exact forced_of_memo hmemo

theorem link {before after : List PromiseId} {p q : PromiseId} (h : s.ResultChain v l a)
    (hl : l = before ++ p :: q :: after) :
    (s.promise p).ok = true ∧ (s.promise p).result = .promise q := by
  cases h.from_mem hl with
  | @next _ b _ _ hmemo hok hrest =>
    refine ⟨(ok_of_memo hmemo).trans hok, (result_of_memo hmemo).trans ?_⟩
    generalize b.value = w at hrest
    cases hrest <;> rfl

theorem last {before : List PromiseId} {p : PromiseId} (h : s.ResultChain v l a)
    (hl : l = before ++ [p]) : (s.promise p).result = a.value ∧ (s.promise p).ok = a.ok := by
  cases h.from_mem hl with
  | failed hmemo => exact ⟨result_of_memo hmemo, ok_of_memo hmemo⟩
  | @next _ b _ _ hmemo hok hrest =>
    rw [result_of_memo hmemo, ok_of_memo hmemo, hok]
    generalize b.value = w at hrest
    cases hrest
    exact ⟨rfl, rfl⟩

theorem leads_iff (h : s.ResultChain v l a) (p : PromiseId) : s.Leads v p ↔ p ∈ l := by
  constructor
  · intro hp
    induction hp with
    | start hv =>
      subst hv
      cases h with
      | plain hv => exact absurd rfl hv
      | failed | next => exact List.mem_cons_self
    | next _ hok hresult ih =>
      obtain ⟨before, after, hl⟩ := List.append_of_mem ih
      cases h.from_mem hl with
      | failed hmemo hno =>
        rw [ok_of_memo hmemo, hno] at hok
        cases hok
      | @next _ b _ _ hmemo _ hrest =>
        -- the result is a promise, so the rest of the chain begins with it
        rw [result_of_memo hmemo] at hresult
        rw [hresult] at hrest
        rw [hl]
        cases hrest with
        | plain hv => exact absurd rfl hv
        | failed | next => simp
  · intro hp
    induction h with
    | plain => cases hp
    | failed =>
      rw [List.mem_singleton.mp hp]
      exact .start rfl
    | next hmemo hok _ ih =>
      rcases List.mem_cons.mp hp with rfl | hp
      · exact .start rfl
      · exact .of_result hmemo hok (ih hp)

theorem resolved (h : s.ResultChain v l a) : s.Resolved v l a where
  met := h.leads_iff
  nodup := h.nodup
  forced := h.forced
  link _ _ _ _ := h.link
  last _ _ := h.last

/-- An answer with success is no promise: the chain would have gone on. -/
theorem tag_ne (h : s.ResultChain v l a) (hok : a.ok = true) : a.value.tag ≠ .promise := by
  induction h with
  | plain hv => exact hv
  | failed _ hno =>
    rw [hno] at hok
    cases hok
  | next _ _ _ ih => exact ih hok

end ResultChain

end Store

namespace Machine
variable {m : Machine} {depth links : Nat} {v : Value} {s t : Store} {a : Answer}

/-- The call of a promise that has its answer stored in the store. -/
def readOff (t : Store) (id : PromiseId) : Made :=
  .mk (.force id) t (.ok ⟨(t.promise id).result, (t.promise id).ok⟩ t) []

/-- A promise has its answer stored when its force returns. -/
theorem promise_memo_of_force {id : PromiseId} (h : m.perform depth (.force id) s = .ok a t) :
    (t.promise id).memo = some a := by
  cases depth with
  | zero => cases h
  | succ d =>
    rcases forceOnceWith_eq_ok h with ⟨hmemo, rfl⟩ | ⟨hmemo, u, hrun, rfl⟩
    · exact hmemo
    · have hlt := Store.lt_of_promise_memo hmemo
      have hsize := (memoHistory_perform m d
        (.evaluate (s.promise id).expression (s.promise id).env) s id).size
      rw [hrun] at hsize
      rw [Store.promise_memoise, if_pos ⟨rfl, Nat.lt_of_lt_of_le hlt hsize⟩]

/-- **When forcing returns, the chain stands in the store.** Answers stored before are
there still, which is what carries the induction over the links. -/
theorem resultChain_of_forceWith (h : forceWith (m.perform depth) links v s = .ok a t) :
    (∃ l, t.ResultChain v l a ∧ l.length ≤ links ∧ (l = [] ∨ 0 < depth)) ∧
      ∀ id b, s.memo id = some b → t.memo id = some b := by
  induction links generalizing v s with
  | zero =>
    cases v with
    | promise id => cases h
    | _ =>
      cases h
      exact ⟨⟨[], .plain nofun, Nat.le_refl _, .inl rfl⟩, fun _ _ hb => hb⟩
  | succ links ih =>
    cases v with
    | promise id =>
      obtain ⟨b, u, hforce, h⟩ := EvalM.bind_eq_ok h
      have hforces : m.Forces depth id s b u := ⟨m.links, hforce⟩
      have hdepth : 0 < depth := by
        cases depth with
        | zero => cases hforce
        | succ d => exact Nat.succ_pos d
      split at h
      · next hok =>
        obtain ⟨⟨l, hchain, hlength, -⟩, hkept⟩ := ih h
        have hstored : t.memo id = some b := hkept id b (hforces.memo_eq hok).1
        refine ⟨⟨id :: l, .next (Store.promise_memo hstored) hok hchain, ?_, .inr hdepth⟩, ?_⟩
        · exact Nat.succ_le_succ hlength
        · exact fun other c hc => hkept other c (hforces.memo_keep hc)
      · next hno =>
        cases h
        have hfailed := Bool.eq_false_iff.mpr hno
        refine ⟨⟨[id], .failed (promise_memo_of_force hforce) hfailed, ?_, .inr hdepth⟩, ?_⟩
        · exact Nat.succ_le_succ (Nat.zero_le _)
        · exact fun other c => hforces.memo_keep
    | _ =>
      cases h
      exact ⟨⟨[], .plain nofun, Nat.zero_le _, .inl rfl⟩, fun _ _ hb => hb⟩

/-- A stored answer is handed out with nothing else called. -/
theorem traced_force_of_memo {id : PromiseId} (h : (t.promise id).memo = some a)
    (hdepth : 0 < depth) : m.traced depth (.force id) t = (.ok a t, [readOff t id]) := by
  obtain ⟨d, rfl⟩ : ∃ d, depth = d + 1 := ⟨depth - 1, by omega⟩
  have hanswer : (⟨(t.promise id).result, (t.promise id).ok⟩ : Answer) = a := by
    rw [Store.result_of_memo h, Store.ok_of_memo h]
  rw [traced_force_of_forced m d (Store.forced_of_memo h), hanswer, readOff, hanswer]

/-- **Forcing along a chain that stands in the store reads it off.** -/
theorem forceWith_resultChain {l : List PromiseId} (h : t.ResultChain v l a)
    (hlength : l.length ≤ links) (hdepth : l = [] ∨ 0 < depth) :
    forceWith (m.traced depth) links v t = (.ok a t, l.map (readOff t)) := by
  induction h generalizing links with
  | @plain v hv =>
    cases v with
    | promise id => exact absurd rfl hv
    | _ => cases links <;> rfl
  | @failed id b hmemo hok =>
    obtain ⟨links, rfl⟩ : ∃ n, links = n + 1 := ⟨links - 1, by simp at hlength; omega⟩
    have hpos : 0 < depth := hdepth.resolve_left (List.cons_ne_nil _ _)
    change (m.traced depth (.force id) >>= _) t = _
    rw [TraceM.bind_ok (traced_force_of_memo hmemo hpos), if_neg (by simp [hok])]
    rfl
  | @next id b c l hmemo hok _ ih =>
    obtain ⟨links, rfl⟩ : ∃ n, links = n + 1 := ⟨links - 1, by simp at hlength; omega⟩
    have hpos : 0 < depth := hdepth.resolve_left (List.cons_ne_nil _ _)
    change (m.traced depth (.force id) >>= _) t = _
    rw [TraceM.bind_ok (traced_force_of_memo hmemo hpos), if_pos hok,
      ih (Nat.le_of_succ_le_succ hlength) (.inr hpos)]
    rfl

/-- The forced value is that of the answer, and nil in place of a failure. -/
theorem forcedValue_eq_ok {w : Value} (h : m.forcedValue depth v s = .ok w t) :
    ∃ a, m.force depth v s = .ok a t ∧ w = if a.ok then a.value else .nil := by
  obtain ⟨a, u, hforce, h⟩ := EvalM.bind_eq_ok h
  cases h
  exact ⟨a, hforce, rfl⟩

end Machine

/-- **Forcing is complete and idempotent.** Suppose that forcing a value gives an answer.
Then all that the value leads to is forced, in a chain without repetition that ends with
this answer; an answer with success is no promise; and forcing the value once more gives
the same answer in the same store, where each promise of the chain is asked once for what
it has stored and nothing is called inside: no expression is evaluated and no native runs.
The forced value is never a promise, and nil where forcing fails. -/
theorem force_complete_idempotent (m : Machine) (depth : Nat) (v : Value) (s : Store) :
    (∀ a t, m.force depth v s = .ok a t →
        (∃ l, t.Resolved v l a ∧ (∀ id, v = .promise id → l.head? = some id) ∧
          m.force depth v t = .ok a t ∧
          (Task.resolve v).calls m depth t = l.map (Machine.readOff t)) ∧
        (a.ok = true → a.value.tag ≠ .promise)) ∧
      ∀ w t, m.forcedValue depth v s = .ok w t → w.tag ≠ .promise ∧
        ∃ a, m.force depth v s = .ok a t ∧ (a.ok = true → w = a.value) ∧
          (a.ok = false → w = .nil) := by
  refine ⟨fun a t h => ?_, fun w t h => ?_⟩
  · obtain ⟨⟨l, hchain, hlength, hdepth⟩, -⟩ := Machine.resultChain_of_forceWith h
    have hagain : (Task.resolve v).traced m depth t = (.ok a t, l.map (Machine.readOff t)) :=
      Machine.forceWith_resultChain hchain hlength hdepth
    refine ⟨⟨l, hchain.resolved, fun id hv => ?_, ?_, congrArg Prod.snd hagain⟩, hchain.tag_ne⟩
    · subst hv
      cases hchain with
      | plain hv => exact absurd rfl hv
      | failed | next => rfl
    · exact ((Task.resolve v).traced_fst m depth t).symm.trans (congrArg Prod.fst hagain)
  · obtain ⟨a, hforce, rfl⟩ := Machine.forcedValue_eq_ok h
    obtain ⟨⟨l, hchain, -, -⟩, -⟩ := Machine.resultChain_of_forceWith hforce
    refine ⟨?_, a, hforce, fun hok => if_pos hok, fun hno => if_neg (by simp [hno])⟩
    split
    · next hok => exact hchain.tag_ne hok
    · exact nofun

namespace Prelude

/-- Two promises: the first is for a name that is bound to the second, and the second
makes a number visible. -/
def handedOn : Store where
  mappings := #[(frame ["tick"]).insert "b" (.promise ⟨1⟩)]
  environments := #[⟨⟨0⟩, none⟩]
  promises := #[⟨.symbol "b", ⟨0⟩, none⟩, ⟨form [.symbol "tick", .integer 4], ⟨0⟩, none⟩]

end Prelude

/-- Forcing the first of two promises, the second of which is its result, runs the second;
forcing it again runs nothing. -/
theorem handedOn_forced :
    ∃ t, Prelude.machine.force 20 (.promise ⟨0⟩) Prelude.handedOn = .ok (.success (.integer 4)) t ∧
      (∃ l, t.Resolved (.promise ⟨0⟩) l (.success (.integer 4))) ∧
      Prelude.machine.force 20 (.promise ⟨0⟩) t = .ok (.success (.integer 4)) t ∧
      Prelude.machine.forcedValue 20 (.promise ⟨0⟩) Prelude.handedOn = .ok (.integer 4) t ∧
      t.effects = #[.integer 4] := by
  have hforce : ∃ t, Prelude.machine.force 20 (.promise ⟨0⟩) Prelude.handedOn =
      .ok (.success (.integer 4)) t ∧ t.effects = #[.integer 4] := ⟨_, rfl, rfl⟩
  obtain ⟨t, hforce, heffects⟩ := hforce
  obtain ⟨⟨l, hresolved, -, hagain, -⟩, -⟩ := (force_complete_idempotent Prelude.machine 20
    (.promise ⟨0⟩) Prelude.handedOn).1 _ t hforce
  exact ⟨t, hforce, ⟨l, hresolved⟩, hagain, EvalM.bind_ok hforce, heffects⟩

end LispCore
