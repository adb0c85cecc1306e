import LispCore.Proofs.Noninterference

/-! # Programs without closures

A program that reaches no closure and no promise ends, if its natives are `eval` or leave
the evaluator alone. Data that it computes or finds in its environment is never evaluated:
`eval` takes its argument as it stands in the expression, so all that is evaluated are
parts of the expression, and inside one another they get smaller. One level of depth for
each pair of the expression and one more are enough for them.

Texts are what needs more. Before a call of something that is no procedure fails, a note
quotes this value, and the value may be nested as deep as one likes; and a native may
write texts of its own. With levels to spare, the evaluation goes too deep only at such a
text, one that needs more than there is to spare (`firstOrder_ends`), and it does happen,
however much there is to spare (`longList_tooDeep`).

Where there are neither closures nor promises is said of a region of the store, which
holds what can be reached at the start and all that is made later (`Store.PlainOn`). -/
namespace LispCore

namespace Value

/-! ## Values without closures and promises -/

/-- The number of pairs that an expression is made of. -/
def pairs : Value → Nat
  | .pair _ first rest => first.pairs + rest.pairs + 1
  | _ => 0

/-- How many pairs stand inside one another, where each element of a list stands inside the
one before it. -/
def nesting : Value → Nat
  | .pair _ first rest => max first.nesting rest.nesting + 1
  | _ => 0

theorem nesting_le_pairs (v : Value) : v.nesting ≤ v.pairs := by
  induction v using nesting.induct with
  | case1 _ first rest ihf ihr =>
    simp only [nesting, pairs]
    omega
  | case2 v hv =>
    cases v with
    | pair => exact absurd rfl (hv _ _ _)
    | _ => exact Nat.le_refl 0

theorem nesting_ending (v : Value) : v.ending.nesting = 0 := by
  cases h : v.ending with
  | pair => exact absurd h (ending_ne_pair v _ _ _)
  | _ => rfl

/-- The parts of an expression. -/
inductive Part (e : Value) : Value → Prop
  | whole : Part e e
  | first {mark : Mark} {first rest : Value} : Part e (.pair mark first rest) → Part e first
  | rest {mark : Mark} {first rest : Value} : Part e (.pair mark first rest) → Part e rest

/-- There are no closures and no promises in the value, its natives are known, and its
mappings lie in the region. -/
inductive Plain (known : Native → Prop) (Q : Region) : Value → Prop
  | nil : Plain known Q .nil
  | integer (n : Int) : Plain known Q (.integer n)
  | float (x : Flonum) : Plain known Q (.float x)
  | string (text : String) : Plain known Q (.string text)
  | symbol (name : String) : Plain known Q (.symbol name)
  | pair {mark : Mark} {first rest : Value} : Plain known Q first → Plain known Q rest →
      Plain known Q (.pair mark first rest)
  | mapping {id : MappingId} : Q (.mapping id) → Plain known Q (.mapping id)
  | array {mark : Mark} {items : List Value} : (∀ v ∈ items, Plain known Q v) →
      Plain known Q (.array mark items)
  | native {p : Native} : known p → Plain known Q (.native p)

namespace Plain
variable {known : Native → Prop} {Q : Region} {v : Value}

theorem first {mark : Mark} {first rest : Value} (h : (Value.pair mark first rest).Plain known Q) :
    first.Plain known Q := by
  cases h with
  | pair hfirst _ => exact hfirst

theorem rest {mark : Mark} {first rest : Value} (h : (Value.pair mark first rest).Plain known Q) :
    rest.Plain known Q := by
  cases h with
  | pair _ hrest => exact hrest

theorem part (h : v.Plain known Q) {w : Value} (hw : v.Part w) : w.Plain known Q := by
  induction hw with
  | whole => exact h
  | first _ ih => exact ih.first
  | rest _ ih => exact ih.rest

theorem ending (h : v.Plain known Q) : v.ending.Plain known Q := by
  induction v using Value.ending.induct with
  | case1 _ _ _ ih => exact ih h.rest
  | case2 v hv =>
    cases v with
    | pair => exact absurd rfl (hv _ _ _)
    | _ => exact h

theorem within {Q' : Region} (h : v.Plain known Q') (hv : v.Within Q) : v.Plain known Q := by
  induction h with
  | nil => exact .nil
  | integer n => exact .integer n
  | float x => exact .float x
  | string text => exact .string text
  | symbol name => exact .symbol name
  | pair _ _ ihf ihr =>
    rw [within_pair] at hv
    exact .pair (ihf hv.1) (ihr hv.2)
  | mapping _ => exact .mapping (within_mapping.mp hv)
  | array _ ih =>
    rw [within_array] at hv
    exact .array fun v hmem => ih v hmem (hv v hmem)
  | native hp => exact .native hp

/-- The text of such a value goes too deep only if the value is nested deeper. -/
theorem lt_nesting (h : v.Plain known Q) {s : Store} {d : Nat} {pos : Position}
    (hw : s.renderAt d pos v = .error .tooDeep) : d < v.nesting := by
  induction h generalizing d pos with
  | integer n =>
    have hdigits : integerText n ≠ .error .tooDeep := by
      unfold integerText
      split <;> simp
    cases htext : integerText n with
    | ok text => cases d <;> simp [Store.renderAt, renderWith, htext, Except.map] at hw
    | error why =>
      cases d <;> simp [Store.renderAt, renderWith, htext, Except.map] at hw <;>
        exact absurd (htext.trans (by rw [hw])) hdigits
  | @pair mark first rest _ _ ihf ihr =>
    cases d with
    | zero => exact Nat.succ_pos _
    | succ d =>
      have hparts : s.renderAt d .alone first = .error .tooDeep ∨
          s.renderAt d .tail rest = .error .tooDeep := by
        cases hfirst : s.renderAt d .alone first with
        | error why =>
          left
          cases pos <;>
            simpa [Store.renderAt, renderWith, hfirst, bind, Except.bind] using hw
        | ok head =>
          right
          cases hrest : s.renderAt d .tail rest with
          | error why =>
            cases pos <;>
              simpa [Store.renderAt, renderWith, hfirst, hrest, bind, Except.bind] using hw
          | ok tail =>
            cases pos <;>
              simp [Store.renderAt, renderWith, hfirst, hrest, bind, Except.bind] at hw
      simp only [nesting]
      rcases hparts with hfirst | hrest
      · have := ihf hfirst
        omega
      · have := ihr hrest
        omega
  | _ => cases d <;> cases pos <;> cases hw

/-- Such a value is forced already. -/
theorem forceWith (h : v.Plain known Q) (self : Call → TraceM Answer) (links : Nat) :
    Machine.forceWith self links v = pure (.success v) := by
  cases h <;> cases links <;> rfl

end Plain

end Value

/-! ## Stores without closures and promises -/

namespace Store
variable {known : Native → Prop} {Q : Region} {s t : Store}

/-- In the region, environments lead to environments and frames of the region, and mappings
hold plain values. All that is not yet in the store belongs to it. -/
structure PlainOn (known : Native → Prop) (Q : Region) (s : Store) : Prop where
  newMapping : ∀ id : MappingId, s.mappings.size ≤ id.index → Q (.mapping id)
  newEnv : ∀ env : EnvId, s.environments.size ≤ env.index → Q (.env env)
  frame : ∀ env x, Q (.env env) → s.environment? env = some x → Q (.mapping x.frame)
  parent : ∀ env outer, Q (.env env) → s.parent? env = some outer → Q (.env outer)
  entries : ∀ id, Q (.mapping id) → ∀ name v, (name, v) ∈ (s.mapping id).entries →
    v.Plain known Q

namespace PlainOn

/-! ### What is read -/

theorem chainWithin (h : s.PlainOn known Q) (steps : Nat) {env : EnvId} (henv : Q (.env env)) :
    ∀ other ∈ s.chainWithin steps env, Q (.env other) := by
  induction steps generalizing env with
  | zero => simp [Store.chainWithin]
  | succ steps ih =>
    intro other hother
    unfold Store.chainWithin at hother
    cases hx : s.environment? env with
    | none => simp [hx] at hother
    | some x =>
      cases hp : x.parent with
      | none =>
        simp only [hx, hp, List.mem_singleton] at hother
        rwa [hother]
      | some outer =>
        simp only [hx, hp, List.mem_cons] at hother
        rcases hother with rfl | hother
        · exact henv
        · exact ih (h.parent env outer henv (by simp [parent?, hx, hp])) other hother

theorem chain (h : s.PlainOn known Q) {env : EnvId} (henv : Q (.env env)) :
    ∀ other ∈ s.chain env, Q (.env other) :=
  h.chainWithin _ henv

theorem find? (h : s.PlainOn known Q) {id : MappingId} (hid : Q (.mapping id)) {name : String}
    {v : Value} (hv : (s.mapping id).find? name = some v) : v.Plain known Q :=
  h.entries id hid name v (Bindings.mem_of_findIn hv)

theorem lookup (h : s.PlainOn known Q) {env : EnvId} (henv : Q (.env env)) {name : String}
    {v : Value} (hv : s.lookup env name = some v) : v.Plain known Q := by
  obtain ⟨other, hother, hfound⟩ := List.exists_of_findSome?_eq_some hv
  unfold Store.frame at hfound
  cases hx : s.environment? other with
  | none => simp [hx] at hfound
  | some x =>
    rw [hx] at hfound
    exact h.find? (h.frame other x (h.chain henv other hother) hx) hfound

/-! ### What is changed -/

theorem of_same (h : s.PlainOn known Q) (hm : t.mappings = s.mappings)
    (he : t.environments = s.environments) : t.PlainOn known Q := by
  have henv : ∀ env, t.environment? env = s.environment? env := by
    intro env
    unfold environment?
    rw [he]
  have hmap : ∀ id, t.mapping id = s.mapping id := by
    intro id
    unfold mapping
    rw [hm]
  refine ⟨?_, ?_, ?_, ?_, ?_⟩
  · rw [hm]; exact h.newMapping
  · rw [he]; exact h.newEnv
  · intro env x hq hx
    exact h.frame env x hq (henv env ▸ hx)
  · intro env outer hq hp
    rw [parent?, henv] at hp
    exact h.parent env outer hq hp
  · intro id hid
    rw [hmap]
    exact h.entries id hid

theorem note (h : s.PlainOn known Q) (level : Int) (r : Record) :
    (s.note level r).PlainOn known Q := by
  unfold Store.note
  split
  · exact h.of_same rfl rfl
  · exact h

theorem write (h : s.PlainOn known Q) (id : MappingId) (name : String) {v : Value}
    (hv : v.Plain known Q) : (s.write id name v).PlainOn known Q := by
  refine ⟨?_, h.newEnv, h.frame, h.parent, fun other hother name' w hw => ?_⟩
  · intro other hother
    exact h.newMapping other (by simpa [Store.write] using hother)
  · rw [mapping_write] at hw
    split at hw
    · rcases Bindings.mem_insertIn hw with rfl | hold
      · exact hv
      · exact h.entries other hother name' w hold
    · exact h.entries other hother name' w hw

theorem bind (h : s.PlainOn known Q) (env : EnvId) (name : String) {v : Value}
    (hv : v.Plain known Q) : (s.bind env name v).PlainOn known Q := by
  unfold Store.bind
  split
  · exact h
  · exact h.write _ name hv

theorem mapping_new (h : s.PlainOn known Q) : (s.newMapping ∅).2.PlainOn known Q := by
  refine ⟨?_, h.newEnv, h.frame, h.parent, fun id hid name v hv => ?_⟩
  · intro id hid
    simp only [Store.newMapping, Array.size_push] at hid
    exact h.newMapping id (by omega)
  · rw [mapping_newMapping] at hv
    split at hv
    · cases hv
    · exact h.entries id hid name v hv

theorem environment_new (h : s.PlainOn known Q) {parent : Option EnvId}
    (hparent : ∀ outer, parent = some outer → Q (.env outer)) :
    (s.newEnvironment parent ∅).2.PlainOn known Q := by
  have hmapping := h.mapping_new
  refine ⟨hmapping.newMapping, ?_, ?_, ?_, hmapping.entries⟩
  · intro env henv
    simp only [newEnvironment, Store.newMapping, Array.size_push] at henv
    exact h.newEnv env (by omega)
  · intro env x hq hx
    rw [environment?_newEnvironment] at hx
    split at hx
    · cases hx
      exact h.newMapping _ (Nat.le_refl _)
    · exact h.frame env x hq hx
  · intro env outer hq hp
    rw [parent?, environment?_newEnvironment] at hp
    split at hp
    · exact hparent outer hp
    · exact h.parent env outer hq hp

theorem child_new (h : s.PlainOn known Q) {env : EnvId} (henv : Q (.env env)) :
    (s.newChild env ∅).2.PlainOn known Q := by
  refine h.environment_new fun outer houter => ?_
  split at houter
  · cases houter
    exact henv
  · cases houter

/-- At the start: the region holds what can be reached, and what the store does not have. -/
theorem start {reached : Region} (hplain : ∀ id, s.Reach reached (.mapping id) →
    ∀ name v, (name, v) ∈ (s.mapping id).entries → v.Plain known fun _ => True) :
    s.PlainOn known fun o => s.Reach reached o ∨ s.Beyond o := by
  have hclosed : ∀ o o', s.Reach reached o ∨ s.Beyond o → s.Holds o o' →
      s.Reach reached o' ∨ s.Beyond o' := by
    rintro o o' (hreach | hbeyond) hholds
    · exact .inl (.step hreach hholds)
    · exact absurd hholds (not_holds_of_beyond hbeyond)
  refine ⟨fun id h => .inr h, fun env h => .inr h, fun env x hq hx => hclosed _ _ hq (.frame hx),
    fun env outer hq hp => hclosed _ _ hq (.parent hp), fun id hid name v hv => ?_⟩
  rcases hid with hreach | hbeyond
  · refine (hplain id hreach name v hv).within fun o ho => ?_
    exact .inl (.step hreach (.entry hv ho))
  · have hempty : s.mapping id = ∅ := by
      simp only [mapping, Array.getD_eq_getD_getElem?, Array.getElem?_eq_none hbeyond,
        Option.getD_none]
    rw [hempty] at hv
    cases hv

end PlainOn

end Store

/-! ## Natives that leave the evaluator alone -/

section Natives
variable (known : Native → Prop) (Q : Region)

/-- No evaluation is asked for, and no promise is made or forced. What is bound or written is
plain, and environments and mappings are taken from the region. -/
def Conduct.plain : Conduct where
  asks
    | .evaluate .. | .applyClosure .. | .applyNative .. | .newPromise .. => False
    | .force v => v.Plain known Q
    | .chain env | .lookup env _ | .newChild env => Q (.env env)
    | .bind env _ v => Q (.env env) ∧ v.Plain known Q
    | .read id _ => Q (.mapping id)
    | .write _ _ v => v.Plain known Q
    | .newMapping | .newMark | .emit _ | .effects | .render _ => True
  hears
    | .force v, a => a = .success v
    | .chain _, envs => ∀ env ∈ envs, Q (.env env)
    | .lookup .., found | .read .., found => ∀ v, found = some v → v.Plain known Q
    | .newChild _, env => Q (.env env)
    | .newMapping, id => Q (.mapping id)
    | _, _ => True
  raises _ := True

end Natives

/-- The native evaluates its first argument as it stands, or it leaves the evaluator alone
and gives plain values for plain values. -/
def Machine.Tame (m : Machine) (known : Native → Prop) (p : Native) : Prop :=
  (m.library p.routine = Bootstrap.eval ∧ p.isLazy = true) ∨
    ∀ Q params env, params.Plain known Q → Q (.env env) →
      (m.library p.routine params env).Obeys (.plain known Q) fun a => a.value.Plain known Q

/-- How something ends that is not evaluation: with a result, by a fault, or at a text that
goes too deep. -/
inductive Settled (known : Native → Prop) (Q : Region) {α : Type} (Good : α → Prop) :
    EStateM.Result Stop Store α → Prop
  | answered {a : α} {t : Store} : t.PlainOn known Q → Good a → Settled known Q Good (.ok a t)
  | raised {fault : Fault} {text : String} {t : Store} :
      Settled known Q Good (.error (.raised fault text) t)
  | tooDeep {t : Store} : Settled known Q Good (.error .tooDeep t)

namespace Settled
variable {known : Native → Prop} {Q : Region} {α : Type} {Good : α → Prop}

theorem unwritable (why : Unwritable) (t : Store) :
    Settled known Q Good (.error why.stop t) := by
  cases why with
  | tooDeep => exact .tooDeep
  | tooManyDigits => exact .raised

theorem render (d : Nat) (v : Value) {s : Store} (hs : s.PlainOn known Q) :
    Settled known Q (fun _ => True) (EvalM.render d v s) := by
  unfold EvalM.render
  split
  · exact .answered hs trivial
  · exact unwritable _ s

theorem raise (d : Nat) (fault : Fault) (s : Store) :
    Settled known Q Good (EvalM.raise d fault s) := by
  unfold EvalM.raise
  split
  · exact .raised
  · exact unwritable _ s

theorem serveWith (m : Machine) (d : Nat) {s : Store} (hs : s.PlainOn known Q) {r : Request}
    (hr : (Conduct.plain known Q).asks r) :
    (m.serveWith d (m.traced d) r s).2 = [] ∧
      Settled known Q ((Conduct.plain known Q).hears r) (m.serveWith d (m.traced d) r s).1 := by
  cases r with
  | evaluate | applyClosure | applyNative | newPromise => exact hr.elim
  | force v =>
    have hforce : m.serveWith d (m.traced d) (.force v) s = (.ok (.success v) s, []) :=
      congrFun (Value.Plain.forceWith hr (m.traced d) m.links) s
    rw [hforce]
    exact ⟨rfl, .answered hs rfl⟩
  | render v => exact ⟨rfl, render d v hs⟩
  | chain env => exact ⟨rfl, .answered hs (hs.chain hr)⟩
  | lookup env name => exact ⟨rfl, .answered hs fun v hv => hs.lookup hr hv⟩
  | bind env name v => exact ⟨rfl, .answered (hs.bind env name hr.2) trivial⟩
  | newChild env => exact ⟨rfl, .answered (hs.child_new hr) (hs.newEnv _ (Nat.le_refl _))⟩
  | newMapping => exact ⟨rfl, .answered hs.mapping_new (hs.newMapping _ (Nat.le_refl _))⟩
  | read id name => exact ⟨rfl, .answered hs fun v hv => hs.find? hr hv⟩
  | write id name v => exact ⟨rfl, .answered (hs.write id name hr) trivial⟩
  | newMark | emit => exact ⟨rfl, .answered (hs.of_same rfl rfl) trivial⟩
  | effects => exact ⟨rfl, .answered hs trivial⟩

/-- A native that leaves the evaluator alone makes no calls. -/
theorem runWith (m : Machine) (d : Nat) {s : Store} (hs : s.PlainOn known Q) {x : Script α}
    (hx : x.Obeys (.plain known Q) Good) :
    (m.runWith d (m.traced d) x s).2 = [] ∧
      Settled known Q Good (m.runWith d (m.traced d) x s).1 := by
  induction x generalizing s with
  | done a => exact ⟨rfl, .answered hs hx⟩
  | raise fault => exact ⟨rfl, raise d fault s⟩
  | ask r next ih =>
    obtain ⟨hnone, hserved⟩ := serveWith m d hs hx.1
    rcases (m.serveWith d (m.traced d) r).cases s with ⟨reply, t, l, h⟩ | ⟨e, t, l, h⟩
    · rw [h] at hnone hserved
      cases hserved with
      | answered ht hheard =>
        obtain ⟨hrest, hsettled⟩ := ih reply ht (hx.2 reply hheard)
        have hrun : m.runWith d (m.traced d) (.ask r next) s =
            ((m.runWith d (m.traced d) (next reply) t).1,
              l ++ (m.runWith d (m.traced d) (next reply) t).2) := TraceM.bind_ok h
        rw [hrun]
        exact ⟨by simp [hrest, show l = [] from hnone], hsettled⟩
    · rw [h] at hnone hserved
      have hrun : m.runWith d (m.traced d) (.ask r next) s = (.error e t, l) :=
        TraceM.bind_error h
      rw [hrun]
      refine ⟨hnone, ?_⟩
      cases hserved with
      | raised => exact .raised
      | tooDeep => exact .tooDeep

end Settled

/-! ## Evaluation -/

/-- The call has stopped at a text that needs more than the levels to spare: that of the value
of its head, which is no procedure, or one that a native writes by itself. -/
inductive Machine.Overlong (m : Machine) (spare : Nat) (c : Made) (t : Store) : Prop
  | head {mark : Mark} {head args v : Value} {env : EnvId} {b : Made} {u : Store} :
      c.call = .evaluate (.pair mark head args) env → b ∈ c.inner → b.call = .evaluate head env →
      b.outcome = .ok (.success v) u → v.tag ≠ .native → spare < v.nesting →
      c.outcome = .error .tooDeep t → m.Overlong spare c t
  | native {p : Native} {params : Value} {env : EnvId} {left : Nat} :
      c.call = .native p params env → c.inner = [] → spare ≤ left →
      m.runWith left (m.perform left) (m.library p.routine params env) c.start =
        .error .tooDeep t →
      c.outcome = .error .tooDeep t → m.Overlong spare c t

/-- The call belongs to an evaluation without closures and promises. What it evaluates is a
part of the expression, as it was written. -/
def Call.Inside (whole : Value) (env : EnvId) : Call → Prop
  | .evaluate e env' | .arguments e env' => whole.Part e ∧ env' = env
  | .native .. => True
  | .deferred .. | .closure .. | .force _ => False

theorem calls_append_self {P : Call → Prop} {l : List Made} {c : Made} (hl : ∀ b ∈ l, P b.call)
    (hc : P c.call) : ∀ b ∈ l ++ [c], P b.call := by
  simpa [or_imp, forall_and] using And.intro hl hc

/-- How an evaluation with levels to spare ends: with a result, by a fault, or at a text that
is too long for them. All calls on the way are of the kind that `P` says. -/
inductive Fared (m : Machine) (known : Native → Prop) (Q : Region) (spare : Nat)
    (P : Call → Prop) {α : Type} (Good : α → Prop) :
    EStateM.Result Stop Store α × List Made → Prop
  | answered {a : α} {t : Store} {l : List Made} : (∀ c ∈ l, P c.call) → t.PlainOn known Q →
      Good a → Fared m known Q spare P Good (.ok a t, l)
  | raised {fault : Fault} {text : String} {t : Store} {l : List Made} : (∀ c ∈ l, P c.call) →
      Fared m known Q spare P Good (.error (.raised fault text) t, l)
  | overlong {t : Store} {l : List Made} {c : Made} : (∀ c ∈ l, P c.call) → c ∈ l →
      m.Overlong spare c t → Fared m known Q spare P Good (.error .tooDeep t, l)

namespace Fared
variable {m : Machine} {known : Native → Prop} {Q : Region} {spare : Nat} {P : Call → Prop}
  {α β : Type} {Good : α → Prop} {Good' : β → Prop} {s : Store}

theorem calls {r : EStateM.Result Stop Store α × List Made} (h : Fared m known Q spare P Good r) :
    ∀ c ∈ r.2, P c.call := by
  cases h with
  | answered hl => exact hl
  | raised hl => exact hl
  | overlong hl => exact hl

/-- A result that took no calls. -/
theorem done {a : α} (hs : s.PlainOn known Q) (ha : Good a) :
    Fared m known Q spare P Good (.ok a s, []) :=
  .answered (by simp) hs ha

/-- What a sequence comes to once its first part has returned. -/
theorem after {x : TraceM α} {f : α → TraceM β} {t : Store} {a : α} {l : List Made}
    (h : x s = (.ok a t, l)) (hl : ∀ c ∈ l, P c.call)
    (hf : Fared m known Q spare P Good' (f a t)) :
    Fared m known Q spare P Good' ((x >>= f) s) := by
  rw [TraceM.bind_ok h]
  have hcalls : ∀ c ∈ l ++ (f a t).2, P c.call := fun c hc =>
    (List.mem_append.mp hc).elim (hl c) (hf.calls c)
  rcases (f a).cases t with ⟨b, u, l', h'⟩ | ⟨e, u, l', h'⟩
  · rw [h'] at hf hcalls ⊢
    cases hf with
    | answered _ hu hb => exact .answered hcalls hu hb
  · rw [h'] at hf hcalls ⊢
    cases hf with
    | raised => exact .raised hcalls
    | overlong _ hc hlong => exact .overlong hcalls (List.mem_append_right _ hc) hlong

theorem stopped {x : TraceM α} {f : α → TraceM β} {t : Store} {e : Stop} {l : List Made}
    (h : x s = (.error e t, l)) (hx : Fared m known Q spare P Good (x s)) :
    Fared m known Q spare P Good' ((x >>= f) s) := by
  rw [TraceM.bind_error h]
  rw [h] at hx
  cases hx with
  | raised hl => exact .raised hl
  | overlong hl hc hlong => exact .overlong hl hc hlong

theorem bind {x : TraceM α} {f : α → TraceM β} (hx : Fared m known Q spare P Good (x s))
    (hf : ∀ a t, t.PlainOn known Q → Good a → Fared m known Q spare P Good' (f a t)) :
    Fared m known Q spare P Good' ((x >>= f) s) := by
  rcases x.cases s with ⟨a, t, l, h⟩ | ⟨e, t, l, h⟩
  · rw [h] at hx
    cases hx with
    | answered hl ht ha => exact after h hl (hf a t ht ha)
  · exact stopped h hx

theorem enclose {x : TraceM Answer} {Good : Answer → Prop} {call : Call} (hcall : P call)
    (hx : Fared m known Q spare P Good (x s)) :
    Fared m known Q spare P Good (TraceM.enclose call x s) := by
  have hcalls : ∀ c ∈ (TraceM.enclose call x s).2, P c.call := calls_append_self hx.calls hcall
  rcases x.cases s with ⟨a, t, l, h⟩ | ⟨e, t, l, h⟩
  · simp only [TraceM.enclose, h] at hx hcalls ⊢
    cases hx with
    | answered _ ht ha => exact .answered hcalls ht ha
  · simp only [TraceM.enclose, h] at hx hcalls ⊢
    cases hx with
    | raised => exact .raised hcalls
    | overlong _ hc hlong => exact .overlong hcalls (List.mem_append_left _ hc) hlong

/-- A text that is not nested too deep may have too many digits at worst. -/
theorem render {v : Value} (hv : v.Plain known Q) {d : Nat} (hd : v.nesting ≤ d)
    (hs : s.PlainOn known Q) : Fared m known Q spare P (fun _ => True)
      ((liftM (EvalM.render d v) : TraceM String) s) := by
  cases hw : s.render d v with
  | ok text =>
    rw [TraceM.render_of_ok hw]
    exact .done hs trivial
  | error why =>
    rw [TraceM.render_of_error hw]
    cases why with
    | tooDeep => exact absurd (hv.lt_nesting hw) (Nat.not_lt.mpr hd)
    | tooManyDigits => exact .raised (by simp)

theorem newPair {v w : Value} (hv : v.Plain known Q) (hw : w.Plain known Q)
    (hs : s.PlainOn known Q) : Fared m known Q spare P (Value.Plain known Q)
      ((liftM (EvalM.act (·.newPair v w)) : TraceM Value) s) :=
  .answered (by simp) (hs.of_same rfl rfl) (.pair hv hw)

theorem lookedUp {env : EnvId} (henv : Q (.env env)) (name : String) (hs : s.PlainOn known Q) :
    Fared m known Q spare P (fun found => ∀ v, found = some v → v.Plain known Q)
      ((liftM (EvalM.read (·.lookup env name)) : TraceM (Option Value)) s) :=
  .done hs fun _ hv => hs.lookup henv hv

theorem noted (source : Source) (severity : Severity) (text : String)
    (hs : s.PlainOn known Q) : Fared m known Q spare P (fun _ => True)
      ((liftM (m.note source severity text) : TraceM Unit) s) :=
  .answered (by simp) (hs.note _ _) trivial

theorem reported (p : Native) (a : Answer) (hs : s.PlainOn known Q) :
    Fared m known Q spare P (fun _ => True) ((liftM (m.reportFailure p a) : TraceM Unit) s) := by
  change Fared m known Q spare P _ (m.reportFailure p a s, [])
  unfold Machine.reportFailure
  split
  · exact .done hs trivial
  · exact .answered (by simp) (hs.note _ _) trivial

/-- What ends in a failure once a note is made. -/
theorem failed (source : Source) (severity : Severity) (text : String) (hs : s.PlainOn known Q) :
    Fared m known Q spare P (fun a => a.value.Plain known Q)
      (((do m.note source severity text; pure .failure) : TraceM Answer) s) :=
  Fared.bind (.noted source severity text hs) fun _ _ ht _ => .done ht .nil

end Fared

/-- What is no procedure is quoted with the whole call, and the call fails. -/
theorem Value.Plain.applyWith {known : Native → Prop} {Q : Region} {v : Value}
    (hv : v.Plain known Q) (hn : v.tag ≠ .native) (m : Machine) (d : Nat) (e args : Value)
    (env : EnvId) : m.applyWith d (m.traced d) e v args env = (do
      let shown ← EvalM.render d v
      let whole ← EvalM.render d e
      m.note .evaluator .debug ("Not a procedure: " ++ shown ++ " in " ++ whole)
      pure .failure : TraceM Answer) := by
  cases hv with
  | native => exact absurd rfl hn
  | _ => rfl

section Evaluation
variable (m : Machine) (known : Native → Prop) (Q : Region) (spare : Nat) (whole : Value)
  (env : EnvId)

/-- What the evaluation of a part of the expression gives. -/
abbrev FaredPart : EStateM.Result Stop Store Answer × List Made → Prop :=
  Fared m known Q spare (Call.Inside whole env) fun a => a.value.Plain known Q

/-- Parts with few enough pairs fare well within a depth, as expressions and as lists of
arguments. -/
def Fares (d : Nat) : Prop :=
  ∀ e s, s.PlainOn known Q → whole.Part e → e.pairs + spare < d →
    FaredPart m known Q spare whole env (m.traced d (.evaluate e env) s) ∧
      FaredPart m known Q spare whole env (m.traced d (.arguments e env) s)

variable {m known Q spare whole env} {d : Nat} {s : Store}

namespace Fares

theorem improperArguments (hs : s.PlainOn known Q) {args : Value} (ha : args.Plain known Q) :
    FaredPart m known Q spare whole env ((m.improperArguments d args.ending : TraceM Answer) s) :=
  Fared.bind (.render ha.ending (by simp [Value.nesting_ending]) hs) fun _ _ ht _ =>
    .failed _ _ _ ht

/-- The step for a list of arguments: a pair of it is the level it takes. -/
theorem arguments (hwhole : whole.Plain known Q) (h : Fares m known Q spare whole env d)
    (hs : s.PlainOn known Q) {args : Value} (ha : whole.Part args)
    (hpairs : args.pairs + spare ≤ d) :
    FaredPart m known Q spare whole env (m.traced (d + 1) (.arguments args env) s) := by
  refine .enclose ⟨ha, rfl⟩ ?_
  change FaredPart m known Q spare whole env (m.argumentsWith d (m.traced d) args env s)
  unfold Machine.argumentsWith
  cases args with
  | nil => exact .done hs .nil
  | pair mark first rest =>
    simp only [Value.pairs] at hpairs
    refine Fared.bind (h first s hs ha.first (by omega)).1 fun head t ht hhead => ?_
    split
    · refine Fared.bind (h rest t ht ha.rest (by omega)).2 fun tail u hu htail => ?_
      split
      · exact Fared.bind (.newPair hhead htail hu) fun v w hw hv => .done hw hv
      · exact .done hu .nil
    · exact .done ht .nil
  | _ => exact improperArguments hs (hwhole.part ha)

/-- `eval` fares well on parts of the expression. -/
theorem eval (h : Fares m known Q spare whole env d) (hs : s.PlainOn known Q) {params : Value}
    (hparams : whole.Part params) (hpairs : params.pairs + spare ≤ d) :
    FaredPart m known Q spare whole env
      (m.runWith d (m.traced d) (Bootstrap.eval params env) s) := by
  cases params with
  | pair mark e rest =>
    simp only [Value.pairs] at hpairs
    exact Fared.bind (h e s hs hparams.first (by omega)).1 fun a t ht ha => .done ht ha
  | _ => exact .done hs .nil

/-- A native that leaves the evaluator alone makes no calls. It stops at its own texts at
worst. -/
theorem aloof (hs : s.PlainOn known Q) {p : Native} {params : Value}
    (hobeys : (m.library p.routine params env).Obeys (.plain known Q) fun a =>
      a.value.Plain known Q) (hspare : spare ≤ d) :
    FaredPart m known Q spare whole env (m.traced (d + 1) (.native p params env) s) := by
  obtain ⟨hnone, hsettled⟩ := Settled.runWith m d hs hobeys
  have hplain : (m.runWith d (m.traced d) (m.library p.routine params env) s).1 =
      m.runWith d (m.perform d) (m.library p.routine params env) s := by
    have hself : ∀ c, Erases Answer (m.traced d c) (m.perform d c) := traced_plain m d
    exact congrFun ((erases_respects m d).native.runWith hself
      (Erases.sequential.forceWith hself rfl m.links) _) s
  rcases (m.runWith d (m.traced d) (m.library p.routine params env)).cases s with
    ⟨a, t, l, hrun⟩ | ⟨e, t, l, hrun⟩
  · rw [hrun] at hsettled hnone
    cases hnone
    cases hsettled with
    | answered ht ha =>
      exact .enclose trivial (Fared.after hrun (by simp)
        (Fared.bind (.reported p a ht) fun _ u hu _ => .done hu ha))
  · have hstep : m.step d (m.traced d) (.native p params env) s = (.error e t, l) :=
      TraceM.bind_error hrun
    rw [hrun] at hsettled hnone hplain
    cases hnone
    rw [traced_of_step hstep]
    have hcalls : ∀ c ∈ [] ++ [Made.mk (.native p params env) s (.error e t) []],
        c.call.Inside whole env := calls_append_self (by simp) trivial
    cases hsettled with
    | raised => exact .raised hcalls
    | tooDeep =>
      exact .overlong hcalls (List.mem_singleton.mpr rfl) (.native rfl rfl hspare hplain.symm rfl)

/-- A native fares well on parts of the expression, if it is lazy, and on plain values. -/
theorem native (hknown : ∀ p, known p → m.Tame known p) (henv : Q (.env env))
    (h : Fares m known Q spare whole env d) (hs : s.PlainOn known Q) {p : Native} (hp : known p)
    {params : Value} (hparams : params.Plain known Q)
    (hlazy : p.isLazy = true → whole.Part params ∧ params.pairs + spare ≤ d)
    (hspare : spare ≤ d) :
    FaredPart m known Q spare whole env (m.traced (d + 1) (.native p params env) s) := by
  rcases hknown p hp with ⟨heval, hisLazy⟩ | htame
  · obtain ⟨hpart, hpairs⟩ := hlazy hisLazy
    have hrun := h.eval hs hpart hpairs
    rw [← heval] at hrun
    exact .enclose trivial (Fared.bind hrun fun a t ht ha =>
      Fared.bind (.reported p a ht) fun _ u hu _ => .done hu ha)
  · exact aloof hs (htame Q params env hparams henv) hspare

/-- A call of a native fares well. -/
theorem applyNative (hknown : ∀ p, known p → m.Tame known p) (hwhole : whole.Plain known Q)
    (henv : Q (.env env)) (h : Fares m known Q spare whole env d) (hs : s.PlainOn known Q)
    {p : Native} (hp : known p) (e : Value) {args : Value} (ha : whole.Part args)
    (hpairs : args.pairs + spare ≤ d) :
    FaredPart m known Q spare whole env
      (m.applyWith (d + 1) (m.traced (d + 1)) e (.native p) args env s) := by
  unfold Machine.applyWith
  dsimp only
  split
  · exact h.native hknown henv hs hp (hwhole.part ha) (fun _ => ⟨ha, hpairs⟩) (by omega)
  · next hstrict =>
    refine Fared.bind (h.arguments hwhole hs ha (by omega)) fun params t ht hparams => ?_
    split
    · exact h.native hknown henv ht hp hparams (fun hisLazy => absurd hisLazy hstrict) (by omega)
    · exact .done ht .nil

/-- A call whose head is no procedure fares well, or stops at the text of this value. -/
theorem notProcedure {mark : Mark} {head args v : Value} {t : Store} {l : List Made}
    (ht : t.PlainOn known Q) (he : whole.Part (.pair mark head args))
    (hplain : (Value.pair mark head args).Plain known Q)
    (hpairs : (Value.pair mark head args).pairs ≤ d) (hspare : spare ≤ d)
    (hhead : m.traced d (.evaluate head env) s = (.ok (.success v) t, l))
    (hl : ∀ c ∈ l, c.call.Inside whole env) (hv : v.Plain known Q) (hn : v.tag ≠ .native) :
    FaredPart m known Q spare whole env
      (m.traced (d + 1) (.evaluate (.pair mark head args) env) s) := by
  have hrest := hv.applyWith hn m d (.pair mark head args) args env
  have hquoted := Nat.le_trans (Value.nesting_le_pairs (.pair mark head args)) hpairs
  cases hw : t.render d v with
  | ok shown =>
    refine .enclose ⟨he, rfl⟩ (Fared.after hhead hl ?_)
    change FaredPart m known Q spare whole env (m.applyWith d (m.traced d) _ v args env t)
    rw [hrest]
    exact Fared.after (TraceM.render_of_ok hw) (by simp) (Fared.bind (.render hplain hquoted ht)
      fun _ u hu _ => .failed _ _ _ hu)
  | error why =>
    have happly : m.applyWith d (m.traced d) (.pair mark head args) v args env t =
        (.error why.stop t, []) := by
      rw [hrest]
      exact TraceM.bind_error (TraceM.render_of_error hw)
    have hstep : m.step d (m.traced d) (.evaluate (.pair mark head args) env) s =
        (.error why.stop t, l) := by
      refine (TraceM.bind_ok hhead).trans ?_
      rw [if_pos (by rfl)]
      dsimp only [Answer.success]
      rw [happly, List.append_nil]
    rw [traced_of_step hstep]
    have hcalls : ∀ c ∈ l ++ [Made.mk (.evaluate (.pair mark head args) env) s
        (.error why.stop t) l], c.call.Inside whole env := calls_append_self hl ⟨he, rfl⟩
    cases why with
    | tooManyDigits => exact .raised hcalls
    | tooDeep =>
      obtain ⟨inner, hmade⟩ := traced_snd m d (.evaluate head env) s
      rw [hhead] at hmade
      obtain ⟨hok, hlast⟩ := Prod.mk.inj hmade
      have hmem :
          Made.mk (.evaluate head env) s (m.perform d (.evaluate head env) s) inner ∈ l := by
        simp [hlast]
      refine .overlong hcalls (List.mem_append_right _ (List.mem_singleton.mpr rfl)) ?_
      exact .head rfl hmem rfl hok.symm hn (Nat.lt_of_le_of_lt hspare (hv.lt_nesting hw)) rfl

/-- The step for a call: its head and its arguments have fewer pairs. -/
theorem call (hknown : ∀ p, known p → m.Tame known p) (hwhole : whole.Plain known Q)
    (henv : Q (.env env)) (h : Fares m known Q spare whole env (d + 1))
    (h' : Fares m known Q spare whole env d) (hs : s.PlainOn known Q) {mark : Mark}
    {head args : Value} (he : whole.Part (.pair mark head args))
    (hpairs : head.pairs + args.pairs + spare ≤ d) :
    FaredPart m known Q spare whole env
      (m.traced (d + 2) (.evaluate (.pair mark head args) env) s) := by
  have hfit : (Value.pair mark head args).pairs ≤ d + 1 := by
    simp only [Value.pairs]
    omega
  have hplain := hwhole.part he
  have hhead := (h head s hs he.first (by omega)).1
  rcases (m.traced (d + 1) (.evaluate head env)).cases s with ⟨a, t, l, hrun⟩ | ⟨e, t, l, hrun⟩
  · have hanswer := hhead
    rw [hrun] at hanswer
    cases hanswer with
    | answered hl ht ha =>
      obtain ⟨v, ok⟩ := a
      cases ok with
      | false =>
        have hquoted := Nat.le_trans (Value.nesting_le_pairs _) hfit
        exact .enclose ⟨he, rfl⟩ (Fared.after hrun hl
          (Fared.bind (.render hplain hquoted ht) fun _ u hu _ => .failed _ _ _ hu))
      | true =>
        by_cases hn : v.tag = .native
        · cases ha with
          | native hp =>
            exact .enclose ⟨he, rfl⟩ (Fared.after hrun hl
              (h'.applyNative hknown hwhole henv ht hp (.pair mark head args) he.rest (by omega)))
          | _ => cases hn
        · exact notProcedure ht he hplain hfit (by omega) hrun hl ha hn
  · exact .enclose ⟨he, rfl⟩ (Fared.stopped hrun hhead)

theorem symbol (henv : Q (.env env)) (hs : s.PlainOn known Q) {name : String}
    (he : whole.Part (.symbol name)) :
    FaredPart m known Q spare whole env (m.traced (d + 1) (.evaluate (.symbol name) env) s) := by
  refine .enclose ⟨he, rfl⟩ (Fared.bind (.lookedUp henv name hs) fun found t ht hfound => ?_)
  cases found with
  | some v => exact .done ht (hfound v rfl)
  | none => exact .failed _ _ _ ht

end Fares

/-- Every part of the expression fares well within a depth of its pairs. -/
theorem fares (hknown : ∀ p, known p → m.Tame known p) (hwhole : whole.Plain known Q)
    (henv : Q (.env env)) (d : Nat) : Fares m known Q spare whole env d := by
  induction d using Nat.strongRecOn with
  | ind d ih =>
    intro e s hs he hpairs
    obtain ⟨d, rfl⟩ : ∃ k, d = k + 1 := ⟨d - 1, by omega⟩
    refine ⟨?_, (ih d (by omega)).arguments hwhole hs he (by omega)⟩
    have hplain := hwhole.part he
    cases hplain with
    | symbol name => exact Fares.symbol henv hs he
    | pair hfirst hrest =>
      simp only [Value.pairs] at hpairs
      obtain ⟨d, rfl⟩ : ∃ k, d = k + 1 := ⟨d - 1, by omega⟩
      exact Fares.call hknown hwhole henv (ih _ (by omega)) (ih _ (by omega)) hs he (by omega)
    | nil => exact .enclose ⟨he, rfl⟩ (.done hs .nil)
    | integer n => exact .enclose ⟨he, rfl⟩ (.done hs (.integer n))
    | float x => exact .enclose ⟨he, rfl⟩ (.done hs (.float x))
    | string text => exact .enclose ⟨he, rfl⟩ (.done hs (.string text))
    | mapping hid => exact .enclose ⟨he, rfl⟩ (.done hs (.mapping hid))
    | array hitems => exact .enclose ⟨he, rfl⟩ (.done hs (.array hitems))
    | native hp => exact .enclose ⟨he, rfl⟩ (.done hs (.native hp))

end Evaluation

/-! ## Main result -/

/-- No closure and no promise can be reached from the environments and mappings, and all the
natives that can be reached are known. -/
def Store.PlainFrom (known : Native → Prop) (start : Region) (s : Store) : Prop :=
  ∀ id, s.Reach start (.mapping id) → ∀ name v, (name, v) ∈ (s.mapping id).entries →
    v.Plain known fun _ => True

/-- **Programs without closures end.** No closure and no promise can be reached from the
expression and its environment, and every native that can be reached is `eval` or leaves
the evaluator alone. Then all that is ever evaluated are parts of the expression, in its
environment. With a level for each pair of the expression, one more, and some to spare,
the evaluation returns, or it ends by a fault, or it stops at a text that needs more levels
than there are to spare. -/
theorem firstOrder_ends (m : Machine) (known : Native → Prop)
    (hknown : ∀ p, known p → m.Tame known p) (e : Value) (env : EnvId) (s : Store)
    (he : e.Plain known fun _ => True) (hs : s.PlainFrom known (Call.evaluate e env).Mentions)
    (spare : Nat) :
    (∀ c ∈ (m.traced (e.pairs + 1 + spare) (.evaluate e env) s).2, c.call.Inside e env) ∧
      ((∃ a t, m.evaluate (e.pairs + 1 + spare) e env s = .ok a t) ∨
        (∃ fault text t,
          m.evaluate (e.pairs + 1 + spare) e env s = .error (.raised fault text) t) ∨
        ∃ t, m.evaluate (e.pairs + 1 + spare) e env s = .error .tooDeep t ∧
          ∃ c ∈ (m.traced (e.pairs + 1 + spare) (.evaluate e env) s).2, m.Overlong spare c t) := by
  have hstart := Store.PlainOn.start hs
  have hwhole : e.Plain known fun o => s.Reach (Call.evaluate e env).Mentions o ∨ s.Beyond o :=
    he.within fun o ho => .inl (.start (.inl ho))
  have hrun : FaredPart m known _ spare e env
      (m.traced (e.pairs + 1 + spare) (.evaluate e env) s) :=
    (fares hknown hwhole (.inl (.start (.inr rfl))) _ e s hstart .whole (by omega)).1
  refine ⟨hrun.calls, ?_⟩
  rw [Machine.evaluate, ← traced_fst]
  rcases (m.traced (e.pairs + 1 + spare) (.evaluate e env)).cases s with
    ⟨a, t, l, h⟩ | ⟨stop, t, l, h⟩
  · exact .inl ⟨a, t, by rw [h]⟩
  · rw [h] at hrun ⊢
    cases hrun with
    | raised => exact .inr (.inl ⟨_, _, t, rfl⟩)
    | overlong _ hc hlong => exact .inr (.inr ⟨t, rfl, _, hc, hlong⟩)

/-! ## Samples -/

namespace Prelude

/-- A machine with the prelude and `eval`. -/
def evalMachine : Machine := { machine with library := Bootstrap.extend library }

/-- The natives `eval` and `list`. -/
def evalOrList (p : Native) : Prop :=
  p = ⟨⟨0⟩, "eval", "eval", true⟩ ∨ p = ⟨⟨1⟩, "list", "list", false⟩

theorem evalOrList_tame (p : Native) (hp : evalOrList p) : evalMachine.Tame evalOrList p := by
  rcases hp with rfl | rfl
  · exact .inl ⟨rfl, rfl⟩
  · exact .inr fun _ _ _ hparams _ => hparams

/-- To evaluate the value of `x`. -/
def evalOfX : Value := form [.symbol "eval", .symbol "x"]

theorem evalOfX_plain (known : Native → Prop) (Q : Region) : evalOfX.Plain known Q :=
  .pair (.symbol _) (.pair (.symbol _) .nil)

/-- An environment where the value of `x` is a call that would evaluate `x` again. -/
def callInX : Store where
  mappings := #[⟨[("eval", .native ⟨⟨0⟩, "eval", "eval", true⟩),
    ("list", .native ⟨⟨1⟩, "list", "list", false⟩), ("x", evalOfX)]⟩]
  environments := #[⟨⟨0⟩, none⟩]

/-- The list of what the value of `x` evaluates to. -/
def listOfEval : Value := form [.symbol "list", evalOfX]

/-- A store with one frame that holds plain values. -/
theorem plainFrom_of_frame {known : Native → Prop} {start : Region} {s : Store}
    {frame : Bindings Value} (hs : s.mappings = #[frame])
    (hframe : ∀ name v, (name, v) ∈ frame.entries → v.Plain known fun _ => True) :
    s.PlainFrom known start := by
  intro id _ name v hv
  rcases id with ⟨_ | n⟩
  · simp only [Store.mapping, hs, Array.getD_eq_getD_getElem?] at hv
    exact hframe name v hv
  · simp [Store.mapping, hs, Array.getD_eq_getD_getElem?] at hv
    cases hv

theorem callInX_plain (start : Region) : callInX.PlainFrom evalOrList start := by
  refine plainFrom_of_frame rfl fun name v hv => ?_
  simp only [List.mem_cons, Prod.mk.injEq, List.not_mem_nil, or_false] at hv
  rcases hv with ⟨-, rfl⟩ | ⟨-, rfl⟩ | ⟨-, rfl⟩
  · exact .native (.inl rfl)
  · exact .native (.inr rfl)
  · exact evalOfX_plain _ _

end Prelude

/-- The value of `x` is data, and `eval` does not evaluate it again. -/
theorem listOfEval_ends :
    ((∀ p, Prelude.evalOrList p → Prelude.evalMachine.Tame Prelude.evalOrList p) ∧
        Prelude.listOfEval.Plain Prelude.evalOrList (fun _ => True) ∧
        Prelude.callInX.PlainFrom Prelude.evalOrList
          (Call.evaluate Prelude.listOfEval ⟨0⟩).Mentions) ∧
      (∀ c ∈ (Prelude.evalMachine.traced 5 (.evaluate Prelude.listOfEval ⟨0⟩) Prelude.callInX).2,
        c.call.Inside Prelude.listOfEval ⟨0⟩) ∧
      ∃ mark t, Prelude.evalMachine.evaluate 5 Prelude.listOfEval ⟨0⟩ Prelude.callInX =
        .ok (.success (.pair mark Prelude.evalOfX .nil)) t := by
  have hplain : Prelude.listOfEval.Plain Prelude.evalOrList (fun _ => True) :=
    .pair (.symbol _) (.pair (Prelude.evalOfX_plain _ _) .nil)
  have hs := Prelude.callInX_plain (Call.evaluate Prelude.listOfEval ⟨0⟩).Mentions
  have hends := firstOrder_ends Prelude.evalMachine Prelude.evalOrList Prelude.evalOrList_tame
    Prelude.listOfEval ⟨0⟩ Prelude.callInX hplain hs 0
  exact ⟨⟨Prelude.evalOrList_tame, hplain, hs⟩, hends.1, _, _, rfl⟩

namespace Prelude

/-- An environment where `x` is a list of zeros. -/
def zerosInX (n : Nat) : Store where
  mappings := #[⟨[("x", form (List.replicate n (.integer 0)))]⟩]
  environments := #[⟨⟨0⟩, none⟩]

/-- To call `x`. -/
def callOfX : Value := form [.symbol "x"]

theorem zeros_plain (known : Native → Prop) (Q : Region) (n : Nat) :
    (form (List.replicate n (.integer 0))).Plain known Q := by
  induction n with
  | zero => exact .nil
  | succ n ih => exact .pair (.integer 0) ih

/-- A list of zeros has no text where it is longer than the depth. -/
theorem renderAt_zeros (s : Store) (d : Nat) (pos : Value.Position) :
    s.renderAt d pos (form (List.replicate (d + 1) (.integer 0))) = .error .tooDeep := by
  induction d generalizing pos with
  | zero => cases pos <;> rfl
  | succ d ih =>
    have hzero : s.renderAt d .alone (.integer 0) = .ok "0" := by
      cases d <;> rfl
    have hrest := ih .tail
    change Value.renderWith (s.renderAt d) _ pos
      (.pair ⟨0⟩ (.integer 0) (form (List.replicate (d + 1) (.integer 0)))) = _
    cases pos <;> simp only [Value.renderWith, hzero, hrest] <;> rfl

end Prelude

/-- However many levels there are to spare, a call of a list that is longer goes too deep,
and the list is no part of the expression. -/
theorem longList_tooDeep :
    (Prelude.callOfX.pairs = 1 ∧ Prelude.callOfX.Plain (fun _ => False) fun _ => True) ∧
      ∀ spare, (Prelude.zerosInX (spare + 2)).PlainFrom (fun _ => False)
          (Call.evaluate Prelude.callOfX ⟨0⟩).Mentions ∧
        ∃ t, readerMachine.evaluate (1 + 1 + spare) Prelude.callOfX ⟨0⟩
          (Prelude.zerosInX (spare + 2)) = .error .tooDeep t := by
  refine ⟨⟨rfl, .pair (.symbol _) .nil⟩, fun spare => ⟨?_, Prelude.zerosInX (spare + 2), ?_⟩⟩
  · refine Prelude.plainFrom_of_frame rfl fun name v hv => ?_
    cases List.mem_singleton.mp hv
    exact Prelude.zeros_plain _ _ _
  · have htext : EvalM.render (spare + 1) (form (List.replicate (spare + 2) (.integer 0)))
        (Prelude.zerosInX (spare + 2)) = .error .tooDeep (Prelude.zerosInX (spare + 2)) := by
      have hlong := Prelude.renderAt_zeros (Prelude.zerosInX (spare + 2)) (spare + 1) .alone
      simp only [EvalM.render, Store.render, hlong]
      rfl
    rw [show 1 + 1 + spare = spare + 2 by omega]
    have hhead : readerMachine.perform (spare + 1) (.evaluate (.symbol "x") ⟨0⟩)
        (Prelude.zerosInX (spare + 2)) =
        .ok (.success (form (List.replicate (spare + 2) (.integer 0))))
          (Prelude.zerosInX (spare + 2)) := rfl
    refine (EvalM.bind_ok hhead).trans ?_
    exact EvalM.bind_error htext

end LispCore
