import LispCore.Machine.Evaluate
import LispCore.Proofs.FaultWording
import Mathlib.Data.List.Forall2

/-! # What can be reached

The store holds mappings, environments and promises, and values refer to them. A
region is a set of such objects; a value lies within a region if all that it mentions
does. What a value and an environment can reach is the least region that holds what
they mention and is closed under the contents of the store.

Two stores that agree on a closed region cannot be told apart from inside it: links
are followed, names looked up and texts written alike (`AgreeOn`). -/
namespace LispCore

/-- What the store holds, by its place. -/
inductive Object where
  | mapping (id : MappingId)
  | env (env : EnvId)
  | promise (id : PromiseId)

/-- A set of objects. -/
abbrev Region := Object → Prop

namespace Value

/-- The objects that a value refers to by itself. -/
inductive Mentions : Value → Object → Prop
  | first {mark : Mark} {v r : Value} {o : Object} : Mentions v o → Mentions (.pair mark v r) o
  | rest {mark : Mark} {v r : Value} {o : Object} : Mentions r o → Mentions (.pair mark v r) o
  | mapping (id : MappingId) : Mentions (.mapping id) (.mapping id)
  | item {mark : Mark} {items : List Value} {v : Value} {o : Object} :
      v ∈ items → Mentions v o → Mentions (.array mark items) o
  | body {mark : Mark} {params : List String} {body : Value} {env : EnvId} {isLazy : Bool}
      {o : Object} : Mentions body o → Mentions (.closure mark params body env isLazy) o
  | home {mark : Mark} {params : List String} {body : Value} {env : EnvId} {isLazy : Bool} :
      Mentions (.closure mark params body env isLazy) (.env env)
  | promise (id : PromiseId) : Mentions (.promise id) (.promise id)

/-- All that the value refers to lies in the region. -/
def Within (Q : Region) (v : Value) : Prop := ∀ o, v.Mentions o → Q o

variable {Q : Region}

@[simp] theorem within_nil : nil.Within Q := nofun

@[simp] theorem within_integer (n : Int) : (integer n).Within Q := nofun

@[simp] theorem within_float (x : Flonum) : (float x).Within Q := nofun

@[simp] theorem within_string (text : String) : (string text).Within Q := nofun

@[simp] theorem within_symbol (name : String) : (symbol name).Within Q := nofun

@[simp] theorem within_native (p : Native) : (native p).Within Q := nofun

@[simp] theorem within_pair {mark : Mark} {v r : Value} :
    (pair mark v r).Within Q ↔ v.Within Q ∧ r.Within Q := by
  refine ⟨fun h => ⟨fun o ho => h o (.first ho), fun o ho => h o (.rest ho)⟩, fun h o ho => ?_⟩
  cases ho with
  | first ho => exact h.1 o ho
  | rest ho => exact h.2 o ho

@[simp] theorem within_mapping {id : MappingId} : (mapping id).Within Q ↔ Q (.mapping id) := by
  refine ⟨fun h => h _ (.mapping id), fun h o ho => ?_⟩
  cases ho
  exact h

@[simp] theorem within_array {mark : Mark} {items : List Value} :
    (array mark items).Within Q ↔ ∀ v ∈ items, v.Within Q := by
  refine ⟨fun h v hv o ho => h o (.item hv ho), fun h o ho => ?_⟩
  cases ho with
  | item hv ho => exact h _ hv o ho

@[simp] theorem within_closure {mark : Mark} {params : List String} {body : Value} {env : EnvId}
    {isLazy : Bool} :
    (closure mark params body env isLazy).Within Q ↔ body.Within Q ∧ Q (.env env) := by
  refine ⟨fun h => ⟨fun o ho => h o (.body ho), h _ .home⟩, fun h o ho => ?_⟩
  cases ho with
  | body ho => exact h.1 o ho
  | home => exact h.2

@[simp] theorem within_promise {id : PromiseId} : (promise id).Within Q ↔ Q (.promise id) := by
  refine ⟨fun h => h _ (.promise id), fun h o ho => ?_⟩
  cases ho
  exact h

end Value

/-! ## Bindings -/

namespace Bindings

/-- All values that are bound lie within the region. -/
def Within (Q : Region) (b : Bindings Value) : Prop :=
  ∀ name v, (name, v) ∈ b.entries → v.Within Q

variable {Q : Region}

theorem within_empty : (∅ : Bindings Value).Within Q := by
  intro name v h
  cases h

theorem mem_insertIn {α : Type} {name name' : String} {v v' : α} {entries : List (String × α)}
    (h : (name', v') ∈ insertIn name v entries) : v' = v ∨ (name', v') ∈ entries := by
  induction entries with
  | nil =>
    simp only [insertIn, List.mem_singleton, Prod.mk.injEq] at h
    exact .inl h.2
  | cons e entries ih =>
    obtain ⟨key, old⟩ := e
    unfold insertIn at h
    split at h <;> rcases List.mem_cons.mp h with h | h
    · exact .inl (Prod.mk.inj h).2
    · exact .inr (List.mem_cons_of_mem _ h)
    · exact .inr (h ▸ List.mem_cons_self)
    · exact (ih h).imp_right (List.mem_cons_of_mem _)

theorem Within.insert {b : Bindings Value} (h : b.Within Q) (name : String) {v : Value}
    (hv : v.Within Q) : (b.insert name v).Within Q := by
  intro name' v' hm
  rcases mem_insertIn hm with rfl | hm
  · exact hv
  · exact h name' v' hm

theorem mem_of_findIn {name : String} {v : Value} {entries : List (String × Value)}
    (h : findIn name entries = some v) : (name, v) ∈ entries := by
  induction entries with
  | nil => cases h
  | cons e entries ih =>
    obtain ⟨key, old⟩ := e
    unfold findIn at h
    split at h
    · next hk =>
      cases h
      rw [hk]
      exact List.mem_cons_self
    · exact List.mem_cons_of_mem _ (ih h)

theorem Within.find?_rel {b : Bindings Value} (h : b.Within Q) (name : String) :
    Option.Rel (fun v v' => v = v' ∧ v.Within Q) (b.find? name) (b.find? name) := by
  cases hf : b.find? name with
  | none => exact .none
  | some v => exact .some ⟨rfl, h name v (mem_of_findIn hf)⟩

end Bindings

/-- The first hits in two lists whose elements give related results one by one. -/
theorem findSome?_rel {α β γ δ : Type} {R : α → β → Prop} {S : γ → δ → Prop} {f : α → Option γ}
    {g : β → Option δ} {l : List α} {l' : List β} (h : List.Forall₂ R l l')
    (hfg : ∀ a b, R a b → Option.Rel S (f a) (g b)) :
    Option.Rel S (l.findSome? f) (l'.findSome? g) := by
  induction h with
  | nil => exact .none
  | @cons a b l l' hab _ ih =>
    have hhead := hfg a b hab
    simp only [List.findSome?_cons]
    generalize f a = x, g b = y at hhead ⊢
    cases hhead with
    | some hxy => exact .some hxy
    | none => exact ih

/-- The parameters that a closure gets are bound to values within the region. -/
theorem matchParams_within {Q : Region} (names : List String) {params : Value}
    {frame : Bindings Value} (hp : params.Within Q) (hf : frame.Within Q) :
    (matchParams names params frame).frame.Within Q := by
  induction names generalizing params frame with
  | nil => exact hf
  | cons name names ih =>
    cases params with
    | pair mark v r =>
      rw [Value.within_pair] at hp
      exact ih hp.2 (hf.insert name hp.1)
    | _ => exact ih hp (hf.insert name Value.within_nil)

namespace Store

/-! ## Contents -/

/-- What the contents of an object refer to. -/
inductive Holds (s : Store) : Object → Object → Prop
  | entry {id : MappingId} {name : String} {v : Value} {o : Object} :
      (name, v) ∈ (s.mapping id).entries → v.Mentions o → Holds s (.mapping id) o
  | frame {env : EnvId} {e : Environment} : s.environment? env = some e →
      Holds s (.env env) (.mapping e.frame)
  | parent {env outer : EnvId} : s.parent? env = some outer → Holds s (.env env) (.env outer)
  | expression {id : PromiseId} {p : Promise} {o : Object} : s.promises[id.index]? = some p →
      p.expression.Mentions o → Holds s (.promise id) o
  | captured {id : PromiseId} {p : Promise} : s.promises[id.index]? = some p →
      Holds s (.promise id) (.env p.env)
  | result {id : PromiseId} {p : Promise} {a : Answer} {o : Object} :
      s.promises[id.index]? = some p → p.memo = some a → a.value.Mentions o →
      Holds s (.promise id) o

/-- All that can be reached in a store from some objects. -/
inductive Reach (s : Store) (start : Region) : Object → Prop
  | start {o : Object} : start o → Reach s start o
  | step {o o' : Object} : Reach s start o → s.Holds o o' → Reach s start o'

/-- An object has the same contents in both stores. -/
def SameAt (s t : Store) : Object → Prop
  | .mapping id => s.mapping id = t.mapping id
  | .env env => s.environment? env = t.environment? env
  | .promise id => s.promises[id.index]? = t.promises[id.index]?

/-- The objects that a store does not have yet. -/
def Beyond (s : Store) : Region
  | .mapping id => s.mappings.size ≤ id.index
  | .env env => s.environments.size ≤ env.index
  | .promise id => s.promises.size ≤ id.index

theorem SameAt.refl (s : Store) (o : Object) : s.SameAt s o := by
  cases o <;> rfl

theorem SameAt.symm {s t : Store} {o : Object} (h : s.SameAt t o) : t.SameAt s o := by
  cases o with
  | mapping => exact Eq.symm h
  | env => exact Eq.symm h
  | promise => exact Eq.symm h

theorem SameAt.trans {s t u : Store} {o : Object} (h : s.SameAt t o) (h' : t.SameAt u o) :
    s.SameAt u o := by
  cases o with
  | mapping => exact Eq.trans h h'
  | env => exact Eq.trans h h'
  | promise => exact Eq.trans h h'

/-! ## Agreement on a region -/

/-- The stores have the same objects in the region, and these refer to no others. -/
structure AgreeOn (Q : Region) (s t : Store) : Prop where
  same : ∀ o, Q o → s.SameAt t o
  closed : ∀ o o', Q o → s.Holds o o' → Q o'

namespace AgreeOn
variable {Q : Region} {s t : Store}

theorem mapping (h : AgreeOn Q s t) {id : MappingId} (hid : Q (.mapping id)) :
    t.mapping id = s.mapping id ∧ (s.mapping id).Within Q :=
  ⟨(h.same _ hid).symm, fun _ _ hm o ho => h.closed _ o hid (.entry hm ho)⟩

theorem environment? (h : AgreeOn Q s t) {env : EnvId} (he : Q (.env env)) :
    t.environment? env = s.environment? env :=
  (h.same _ he).symm

theorem frame (h : AgreeOn Q s t) {env : EnvId} (he : Q (.env env)) :
    t.frame env = s.frame env ∧ (s.frame env).Within Q := by
  unfold Store.frame
  rw [h.environment? he]
  cases hs : s.environment? env with
  | none => exact ⟨rfl, Bindings.within_empty⟩
  | some e => exact h.mapping (h.closed _ _ he (.frame hs))

theorem promise (h : AgreeOn Q s t) {id : PromiseId} (hid : Q (.promise id)) :
    t.promise id = s.promise id := by
  have hsame : s.promises[id.index]? = t.promises[id.index]? := h.same _ hid
  simp only [Store.promise, Array.getD_eq_getD_getElem?, hsame]

theorem promise_shown (h : AgreeOn Q s t) {id : PromiseId} (hid : Q (.promise id)) :
    (s.promise id).shown.Within Q := by
  cases hp : s.promises[id.index]? with
  | none =>
    have hd : s.promise id = ⟨.nil, ⟨0⟩, some .failure⟩ := by
      simp only [Store.promise, Array.getD_eq_getD_getElem?, hp, Option.getD_none]
    rw [hd]
    exact Value.within_nil
  | some p =>
    have hd : s.promise id = p := by
      simp only [Store.promise, Array.getD_eq_getD_getElem?, hp, Option.getD_some]
    rw [hd]
    intro o ho
    unfold Promise.shown Promise.forced Promise.result at ho
    cases hm : p.memo with
    | none =>
      rw [hm] at ho
      exact h.closed _ o hid (.expression hp ho)
    | some a =>
      rw [hm] at ho
      exact h.closed _ o hid (.result hp hm ho)

/-- Links lead from the region into the region. -/
theorem chainWithin (h : AgreeOn Q s t) (steps : Nat) {env : EnvId} (he : Q (.env env)) :
    t.chainWithin steps env = s.chainWithin steps env ∧
      ∀ other ∈ s.chainWithin steps env, Q (.env other) := by
  induction steps generalizing env with
  | zero => exact ⟨rfl, nofun⟩
  | succ steps ih =>
    unfold Store.chainWithin
    rw [h.environment? he]
    cases hs : s.environment? env with
    | none => exact ⟨rfl, nofun⟩
    | some e =>
      cases hp : e.parent with
      | none =>
        simp only [hp, List.mem_singleton, true_and]
        intro other ho
        rwa [ho]
      | some outer =>
        have hparent : s.parent? env = some outer := by
          simp only [Store.parent?, hs, Option.bind_some, hp]
        obtain ⟨heq, hall⟩ := ih (h.closed _ _ he (.parent hparent))
        simp only [hp, heq, List.mem_cons, true_and]
        rintro other (rfl | ho)
        · exact he
        · exact hall other ho

theorem chain (h : AgreeOn Q s t) {env : EnvId} (he : Q (.env env)) :
    t.chain env = s.chain env ∧ ∀ other ∈ s.chain env, Q (.env other) :=
  h.chainWithin _ he

theorem lookup (h : AgreeOn Q s t) {env : EnvId} (name : String) (he : Q (.env env)) :
    Option.Rel (fun v v' => v = v' ∧ v.Within Q) (s.lookup env name) (t.lookup env name) := by
  obtain ⟨heq, hall⟩ := h.chain he
  unfold Store.lookup
  rw [heq]
  have hsame : List.Forall₂ (fun e e' => e = e' ∧ Q (.env e)) (s.chain env) (s.chain env) :=
    List.forall₂_same.mpr fun other ho => ⟨rfl, hall other ho⟩
  refine findSome?_rel hsame ?_
  rintro other _ ⟨rfl, ho⟩
  obtain ⟨hframe, hwithin⟩ := h.frame ho
  rw [hframe]
  exact hwithin.find?_rel name

end AgreeOn

end Store

/-! ## Texts -/

section Texts
variable {Q : Region}

theorem renderWith_within {i i' : Value.Position → Value → Written String}
    {o o' : PromiseId → Written String} (hi : ∀ pos v, v.Within Q → i' pos v = i pos v)
    (ho : ∀ id, Q (.promise id) → o' id = o id) (pos : Value.Position) {v : Value}
    (hv : v.Within Q) : Value.renderWith i' o' pos v = Value.renderWith i o pos v := by
  cases v with
  | pair _ first rest =>
    rw [Value.within_pair] at hv
    cases pos <;> simp only [Value.renderWith, hi _ first hv.1, hi _ rest hv.2]
  | promise id => cases pos <;> simp only [Value.renderWith, ho id (Value.within_promise.mp hv)]
  | _ => cases pos <;> simp only [Value.renderWith]

theorem mapM_congr {α β : Type} {f g : α → Written β} {l : List α} (h : ∀ a ∈ l, f a = g a) :
    l.mapM f = l.mapM g := by
  induction l with
  | nil => rfl
  | cons a l ih =>
    simp only [List.mapM_cons]
    rw [h a List.mem_cons_self, ih fun b hb => h b (List.mem_cons_of_mem _ hb)]

/-- Bindings within the region are written by describing values within it. -/
theorem entriesText_within {key : String → String} {f g : Value → Written String}
    {b : Bindings Value} (hb : b.Within Q) (h : ∀ v, v.Within Q → f v = g v) :
    entriesText key f b = entriesText key g b := by
  unfold entriesText
  congr 1
  refine mapM_congr fun e he => ?_
  rw [h e.2 (hb e.1 e.2 he)]

namespace Store.AgreeOn
variable {s t : Store}

theorem renderAt (h : AgreeOn Q s t) (depth : Nat) (pos : Value.Position) {v : Value}
    (hv : v.Within Q) : t.renderAt depth pos v = s.renderAt depth pos v := by
  induction depth generalizing pos v with
  | zero => exact renderWith_within (fun _ _ _ => rfl) (fun _ _ => rfl) pos hv
  | succ depth ih =>
    refine renderWith_within (fun pos _ hv => ih pos hv) (fun id hid => ?_) pos hv
    rw [h.promise hid]
    exact ih .alone (h.promise_shown hid)

theorem render (h : AgreeOn Q s t) (depth : Nat) {v : Value} (hv : v.Within Q) :
    t.render depth v = s.render depth v :=
  h.renderAt depth .alone hv

theorem describeWith (h : AgreeOn Q s t) {i i' : List Identity → Value → Written String}
    (hi : ∀ busy v, v.Within Q → i' busy v = i busy v) (busy : List Identity) {v : Value}
    (hv : v.Within Q) : t.describeWith i' busy v = s.describeWith i busy v := by
  cases v with
  | pair mark first rest =>
    rw [Value.within_pair] at hv
    simp only [Store.describeWith, hi _ first hv.1, hi _ rest hv.2]
  | mapping id =>
    obtain ⟨hsame, hwithin⟩ := h.mapping (Value.within_mapping.mp hv)
    simp only [Store.describeWith, hsame]
    congr 1
    funext busy
    rw [entriesText_within hwithin fun v hv => hi busy v hv]
  | array mark items =>
    simp only [Store.describeWith]
    congr 1
    funext busy
    rw [mapM_congr fun item hitem => hi busy item (Value.within_array.mp hv item hitem)]
  | promise id =>
    have hid : Q (.promise id) := Value.within_promise.mp hv
    simp only [Store.describeWith, h.promise hid, hi busy _ (h.promise_shown hid)]
  | _ => rfl

theorem describeIn (h : AgreeOn Q s t) (depth : Nat) (busy : List Identity) {v : Value}
    (hv : v.Within Q) : t.describeIn depth busy v = s.describeIn depth busy v := by
  induction depth generalizing busy v with
  | zero => exact h.describeWith (fun _ _ _ => rfl) busy hv
  | succ depth ih => exact h.describeWith (fun busy _ hv => ih busy hv) busy hv

end Store.AgreeOn

/-- What a fault quotes lies within the region. -/
def Fault.Within (Q : Region) : Fault → Prop := Fault.All (·.Within Q)

theorem Store.AgreeOn.worded {s t : Store} (h : AgreeOn Q s t) (depth : Nat) :
    Worded (fun v v' => v' = v ∧ v.Within Q) Eq t s depth depth where
  refl _ := rfl
  map f _ _ hxy := congrArg (Except.map f) hxy
  tag hv := congrArg Value.tag hv.1.symm
  real hx := by cases hx.1; rfl
  describe := by
    rintro v _ ⟨rfl, hv⟩
    exact h.describeIn depth [] hv
  render := by
    rintro v _ ⟨rfl, hv⟩
    exact h.render depth hv

theorem Store.AgreeOn.message {s t : Store} (h : AgreeOn Q s t) (depth : Nat) {fault : Fault}
    (hf : fault.Within Q) : fault.message t depth = fault.message s depth :=
  (Fault.Rel.of_all (fun _ hv => ⟨rfl, hv⟩) Value.within_float hf).message (h.worded depth)

end Texts

end LispCore
