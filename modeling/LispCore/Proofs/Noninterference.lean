import LispCore.Proofs.Conduct
import LispCore.Proofs.Memo
import LispCore.Proofs.Reach

/-! # What evaluation reads

A call reads and writes only what it can reach: two stores that differ in other
objects alone give the same answer or the same stop, the same journal and the same
effects, and the same contents of all that can be reached and of all that is made. What
cannot be reached stays as it is, in both (`perform_noninterference`). Natives are held
to the same: whatever region holds their parameters and their caller's environment, they
ask for nothing outside it as long as the replies lie inside
(`Library.ReadsReachable`).

The region of a run is what its call can reach at the start, with all objects that the
store does not have yet. It does not change, and the two runs go alongside each other:
they agree on the region, which stays closed, and leave the rest (`Alongside`). -/
namespace LispCore

open Store (AgreeOn)

namespace Store

/-! ## Contents decide what is referred to -/

theorem Holds.of_sameAt {s t : Store} {o o' : Object} (hs : s.SameAt t o) (h : s.Holds o o') :
    t.Holds o o' := by
  cases h with
  | entry hm ho => exact .entry (Eq.subst (motive := fun b => _ ∈ b.entries) hs hm) ho
  | frame he => exact .frame (hs ▸ he)
  | parent hp =>
    have hsame : s.environment? _ = t.environment? _ := hs
    refine .parent ?_
    unfold Store.parent? at hp ⊢
    rwa [← hsame]
  | expression hp ho => exact .expression (hs ▸ hp) ho
  | captured hp => exact .captured (hs ▸ hp)
  | result hp hm ho => exact .result (hs ▸ hp) hm ho

/-- Objects that a store does not have refer to nothing. -/
theorem not_holds_of_beyond {s : Store} {o o' : Object} (hb : s.Beyond o) : ¬ s.Holds o o' := by
  intro h
  cases h with
  | @entry id _ _ _ hm =>
    have hempty : s.mapping id = ∅ := by
      simp only [mapping, Array.getD_eq_getD_getElem?, Array.getElem?_eq_none hb, Option.getD_none]
    rw [hempty] at hm
    cases hm
  | frame he => exact absurd (Array.getElem?_eq_some_iff.mp he).1 (Nat.not_lt.mpr hb)
  | @parent env outer hp =>
    have hnone : s.environment? env = none := Array.getElem?_eq_none hb
    simp [parent?, hnone] at hp
  | expression hp | captured hp | result hp =>
    exact absurd (Array.getElem?_eq_some_iff.mp hp).1 (Nat.not_lt.mpr hb)

/-- The stores have equally many objects, and the same marks, journal and effects. -/
structure SameCounts (s t : Store) : Prop where
  mappings : s.mappings.size = t.mappings.size
  environments : s.environments.size = t.environments.size
  promises : s.promises.size = t.promises.size
  marks : s.marks = t.marks
  records : s.records = t.records
  effects : s.effects = t.effects

theorem sameAt_of_beyond {s t : Store} (hc : SameCounts s t) {o : Object} (hb : s.Beyond o) :
    s.SameAt t o := by
  cases o with
  | mapping id =>
    have hb' : t.mappings.size ≤ id.index := hc.mappings ▸ hb
    simp only [SameAt, mapping, Array.getD_eq_getD_getElem?, Array.getElem?_eq_none hb,
      Array.getElem?_eq_none hb']
  | env env =>
    have hb' : t.environments.size ≤ env.index := hc.environments ▸ hb
    exact (Array.getElem?_eq_none hb).trans (Array.getElem?_eq_none hb').symm
  | promise id =>
    have hb' : t.promises.size ≤ id.index := hc.promises ▸ hb
    exact (Array.getElem?_eq_none hb).trans (Array.getElem?_eq_none hb').symm

/-- The stores differ in the contents of objects outside the region alone. -/
structure DiffersOutside (Q : Region) (s t : Store) : Prop extends SameCounts s t where
  same : ∀ o, Q o → s.SameAt t o

end Store

open Store (SameCounts)

/-! ## Two runs -/

/-- The runs from `s` and `s'` have come to `t` and `t'`: these agree on the region, and
outside it they are as they were. -/
structure Alongside (Q : Region) (s s' t t' : Store) : Prop
    extends AgreeOn Q t t', SameCounts t t' where
  grown : ∀ o, t.Beyond o → s.Beyond o
  left : ∀ o, ¬ Q o → t.SameAt s o
  right : ∀ o, ¬ Q o → t'.SameAt s' o

namespace Alongside
variable {Q : Region} {s s' t t' u u' : Store}

/-- A region of what can be reached and of what is not there yet is closed at the start. -/
theorem start {base : Region} (hd : Store.DiffersOutside (s.Reach base) s s') :
    Alongside (fun o => s.Reach base o ∨ s.Beyond o) s s' s s' where
  toSameCounts := hd.toSameCounts
  same o ho := ho.elim (hd.same o) (Store.sameAt_of_beyond hd.toSameCounts)
  closed o o' ho hh := by
    rcases ho with ho | ho
    · exact .inl (.step ho hh)
    · exact absurd hh (Store.not_holds_of_beyond ho)
  grown _ h := h
  left o _ := .refl s o
  right o _ := .refl s' o

/-- Both runs change some objects of the region in the same way and leave the others. -/
theorem update (h : Alongside Q s s' t t') (hc : SameCounts u u')
    (hg : ∀ o, u.Beyond o → t.Beyond o)
    (ho : ∀ o, (u.SameAt t o ∧ u'.SameAt t' o) ∨
      (Q o ∧ u.SameAt u' o ∧ ∀ o', u.Holds o o' → Q o')) : Alongside Q s s' u u' where
  toSameCounts := hc
  same o hQ := by
    rcases ho o with ⟨hl, hr⟩ | ⟨_, hsame, _⟩
    · exact hl.trans ((h.same o hQ).trans hr.symm)
    · exact hsame
  closed o o' hQ hh := by
    rcases ho o with ⟨hl, _⟩ | ⟨_, _, hclosed⟩
    · exact h.closed o o' hQ (hh.of_sameAt hl)
    · exact hclosed o' hh
  grown o hb := h.grown o (hg o hb)
  left o hQ := by
    rcases ho o with ⟨hl, _⟩ | ⟨hQ', _⟩
    · exact hl.trans (h.left o hQ)
    · exact absurd hQ' hQ
  right o hQ := by
    rcases ho o with ⟨_, hr⟩ | ⟨hQ', _⟩
    · exact hr.trans (h.right o hQ)
    · exact absurd hQ' hQ

/-- Only the counts change. -/
theorem of_objects (h : Alongside Q s s' t t') (hc : SameCounts u u')
    (hg : ∀ o, u.Beyond o → t.Beyond o) (hu : ∀ o, u.SameAt t o) (hu' : ∀ o, u'.SameAt t' o) :
    Alongside Q s s' u u' :=
  h.update hc hg fun o => .inl ⟨hu o, hu' o⟩

theorem note (h : Alongside Q s s' t t') (level : Int) (r : Record) :
    Alongside Q s s' (t.note level r) (t'.note level r) := by
  unfold Store.note
  split
  · refine h.of_objects ?_ (fun o hb => ?_) (fun o => ?_) fun o => ?_
    · exact ⟨h.mappings, h.environments, h.promises, h.marks, by simp [h.records], h.effects⟩
    all_goals cases o <;> first | exact hb | rfl
  · exact h

theorem newMark (h : Alongside Q s s' t t') : Alongside Q s s' t.newMark.2 t'.newMark.2 := by
  refine h.of_objects ?_ (fun o hb => ?_) (fun o => ?_) fun o => ?_
  · exact ⟨h.mappings, h.environments, h.promises, congrArg (· + 1) h.marks, h.records, h.effects⟩
  all_goals cases o <;> first | exact hb | rfl

theorem emit (h : Alongside Q s s' t t') (v : Value) :
    Alongside Q s s' (t.emit v) (t'.emit v) := by
  refine h.of_objects ?_ (fun o hb => ?_) (fun o => ?_) fun o => ?_
  · exact ⟨h.mappings, h.environments, h.promises, h.marks, h.records, by
      simp [Store.emit, h.effects]⟩
  all_goals cases o <;> first | exact hb | rfl

/-- A mapping with contents within the region refers to nothing outside. -/
theorem holds_mapping {b : Bindings Value} {id : MappingId} (hm : t.mapping id = b)
    (hb : b.Within Q) : ∀ o, t.Holds (.mapping id) o → Q o := by
  intro o hh
  cases hh with
  | entry he ho => exact hb _ _ (hm ▸ he) o ho

/-- A promise with all its parts within the region refers to nothing outside. -/
theorem holds_promise {p : Promise} {id : PromiseId} (hp : t.promises[id.index]? = some p)
    (he : p.expression.Within Q) (henv : Q (.env p.env))
    (hm : ∀ a, p.memo = some a → a.value.Within Q) : ∀ o, t.Holds (.promise id) o → Q o := by
  intro o hh
  cases hh with
  | expression hp' ho =>
    cases hp.symm.trans hp'
    exact he o ho
  | captured hp' =>
    cases hp.symm.trans hp'
    exact henv
  | result hp' ha ho =>
    cases hp.symm.trans hp'
    exact hm _ ha o ho

theorem write (h : Alongside Q s s' t t') {id : MappingId} (name : String) {v : Value}
    (hid : Q (.mapping id)) (hv : v.Within Q) :
    Alongside Q s s' (t.write id name v) (t'.write id name v) := by
  refine h.update ?_ (fun o hb => ?_) fun o => ?_
  · exact ⟨by simp [Store.write, h.mappings], h.environments, h.promises, h.marks, h.records,
      h.effects⟩
  · cases o with
    | mapping => simpa [Store.Beyond, Store.write] using hb
    | _ => exact hb
  · cases o with
    | env | promise => exact .inl ⟨rfl, rfl⟩
    | mapping other =>
      have hl := t.mapping_write id other name v
      have hr := t'.mapping_write id other name v
      rw [← h.mappings] at hr
      by_cases hc : id = other ∧ id.index < t.mappings.size
      · rw [if_pos hc] at hl hr
        obtain ⟨rfl, _⟩ := hc
        obtain ⟨hsame, hwithin⟩ := h.mapping hid
        rw [hsame] at hr
        exact .inr ⟨hid, hl.trans hr.symm, holds_mapping hl (hwithin.insert name hv)⟩
      · rw [if_neg hc] at hl hr
        exact .inl ⟨hl, hr⟩

theorem bind (h : Alongside Q s s' t t') {env : EnvId} (name : String) {v : Value}
    (he : Q (.env env)) (hv : v.Within Q) :
    Alongside Q s s' (t.bind env name v) (t'.bind env name v) := by
  unfold Store.bind
  rw [h.environment? he]
  cases hs : t.environment? env with
  | none => exact h
  | some e => exact h.write name (h.closed _ _ he (.frame hs)) hv

section New
variable (hnew : ∀ o, s.Beyond o → Q o)

include hnew

theorem newMapping (h : Alongside Q s s' t t') {contents : Bindings Value}
    (hw : contents.Within Q) :
    Alongside Q s s' (t.newMapping contents).2 (t'.newMapping contents).2 ∧
      (t'.newMapping contents).1 = (t.newMapping contents).1 ∧
      Q (.mapping (t.newMapping contents).1) := by
  have hid : (t'.newMapping contents).1 = (t.newMapping contents).1 :=
    congrArg MappingId.mk h.mappings.symm
  have hQ : Q (.mapping (t.newMapping contents).1) := hnew _ (h.grown _ (Nat.le_refl _))
  refine ⟨h.update ?_ (fun o hb => ?_) fun o => ?_, hid, hQ⟩
  · exact ⟨by simp [Store.newMapping, h.mappings], h.environments, h.promises, h.marks, h.records,
      h.effects⟩
  · cases o with
    | mapping id =>
      have hb' : t.mappings.size + 1 ≤ id.index := by simpa [Store.Beyond, Store.newMapping] using hb
      exact Nat.le_of_succ_le hb'
    | _ => exact hb
  · cases o with
    | env | promise => exact .inl ⟨rfl, rfl⟩
    | mapping id =>
      have hl := t.mapping_newMapping contents id
      have hr := t'.mapping_newMapping contents id
      rw [hid] at hr
      by_cases hc : id = (t.newMapping contents).1
      · rw [if_pos hc] at hl hr
        exact .inr ⟨hc ▸ hQ, hl.trans hr.symm, holds_mapping hl hw⟩
      · rw [if_neg hc] at hl hr
        exact .inl ⟨hl, hr⟩

theorem newEnvironment (h : Alongside Q s s' t t') {parent : Option EnvId}
    {contents : Bindings Value} (hp : ∀ env, parent = some env → Q (.env env))
    (hw : contents.Within Q) :
    Alongside Q s s' (t.newEnvironment parent contents).2 (t'.newEnvironment parent contents).2 ∧
      (t'.newEnvironment parent contents).1 = (t.newEnvironment parent contents).1 ∧
      Q (.env (t.newEnvironment parent contents).1) := by
  obtain ⟨hmap, hframe, hQframe⟩ := h.newMapping hnew hw
  have henv : (t'.newEnvironment parent contents).1 = (t.newEnvironment parent contents).1 :=
    congrArg EnvId.mk h.environments.symm
  have hQ : Q (.env (t.newEnvironment parent contents).1) := hnew _ (h.grown _ (Nat.le_refl _))
  refine ⟨hmap.update ?_ (fun o hb => ?_) fun o => ?_, henv, hQ⟩
  · exact ⟨hmap.mappings, by simp [Store.newEnvironment, Store.newMapping, h.environments],
      h.promises, h.marks, h.records, h.effects⟩
  · cases o with
    | env env =>
      have hb' : t.environments.size + 1 ≤ env.index := by
        simpa [Store.Beyond, Store.newEnvironment, Store.newMapping] using hb
      exact Nat.le_of_succ_le hb'
    | _ => exact hb
  · cases o with
    | mapping | promise => exact .inl ⟨rfl, rfl⟩
    | env env =>
      have hl := t.environment?_newEnvironment parent contents env
      have hr := t'.environment?_newEnvironment parent contents env
      rw [henv, ← h.mappings] at hr
      by_cases hc : env = (t.newEnvironment parent contents).1
      · rw [if_pos hc] at hl hr
        refine .inr ⟨hc ▸ hQ, hl.trans hr.symm, fun o hh => ?_⟩
        cases hh with
        | frame he =>
          cases hl.symm.trans he
          exact hQframe
        | parent he =>
          simp only [Store.parent?, hl, Option.bind_some] at he
          exact hp _ he
      · rw [if_neg hc] at hl hr
        exact .inl ⟨hl, hr⟩

theorem newChild (h : Alongside Q s s' t t') {env : EnvId} {contents : Bindings Value}
    (he : Q (.env env)) (hw : contents.Within Q) :
    Alongside Q s s' (t.newChild env contents).2 (t'.newChild env contents).2 ∧
      (t'.newChild env contents).1 = (t.newChild env contents).1 ∧
      Q (.env (t.newChild env contents).1) := by
  unfold Store.newChild
  rw [← h.environments]
  refine h.newEnvironment hnew (fun outer ho => ?_) hw
  split at ho
  · cases ho
    exact he
  · cases ho

theorem newPromise (h : Alongside Q s s' t t') {e : Value} {env : EnvId} (he : e.Within Q)
    (henv : Q (.env env)) :
    Alongside Q s s' (t.newPromise e env).2 (t'.newPromise e env).2 ∧
      (t'.newPromise e env).1 = (t.newPromise e env).1 ∧ Q (.promise (t.newPromise e env).1) := by
  have hid : (t'.newPromise e env).1 = (t.newPromise e env).1 :=
    congrArg PromiseId.mk h.promises.symm
  have hQ : Q (.promise (t.newPromise e env).1) := hnew _ (h.grown _ (Nat.le_refl _))
  refine ⟨h.update ?_ (fun o hb => ?_) fun o => ?_, hid, hQ⟩
  · exact ⟨h.mappings, h.environments, by simp [Store.newPromise, h.promises], h.marks, h.records,
      h.effects⟩
  · cases o with
    | promise id =>
      have hb' : t.promises.size + 1 ≤ id.index := by simpa [Store.Beyond, Store.newPromise] using hb
      exact Nat.le_of_succ_le hb'
    | _ => exact hb
  · cases o with
    | mapping | env => exact .inl ⟨rfl, rfl⟩
    | promise id =>
      have hl : (t.newPromise e env).2.promises[id.index]? =
          if id.index = t.promises.size then some ⟨e, env, none⟩ else t.promises[id.index]? :=
        Array.getElem?_push
      have hr : (t'.newPromise e env).2.promises[id.index]? =
          if id.index = t'.promises.size then some ⟨e, env, none⟩ else t'.promises[id.index]? :=
        Array.getElem?_push
      rw [← h.promises] at hr
      by_cases hc : id.index = t.promises.size
      · rw [if_pos hc] at hl hr
        have hQid : Q (.promise id) := by
          obtain ⟨i⟩ := id
          obtain rfl : i = t.promises.size := hc
          exact hQ
        refine .inr ⟨hQid, hl.trans hr.symm, holds_promise hl he henv fun a ha => ?_⟩
        cases ha
      · rw [if_neg hc] at hl hr
        exact .inl ⟨hl, hr⟩

end New

theorem memoise (h : Alongside Q s s' t t') {id : PromiseId} {a : Answer} (hid : Q (.promise id))
    (ha : a.value.Within Q) : Alongside Q s s' (t.memoise id a) (t'.memoise id a) := by
  refine h.update ?_ (fun o hb => ?_) fun o => ?_
  · exact ⟨h.mappings, h.environments, by simp [Store.memoise, h.promises], h.marks, h.records,
      h.effects⟩
  · cases o with
    | promise => simpa [Store.Beyond, Store.memoise] using hb
    | _ => exact hb
  · cases o with
    | mapping | env => exact .inl ⟨rfl, rfl⟩
    | promise other =>
      have hl : (t.memoise id a).promises[other.index]? =
          if id.index = other.index then
            t.promises[other.index]?.map fun p => { p with memo := some a }
          else t.promises[other.index]? := by
        simp only [Store.memoise, Array.getElem?_modify]
      have hr : (t'.memoise id a).promises[other.index]? =
          if id.index = other.index then
            t'.promises[other.index]?.map fun p => { p with memo := some a }
          else t'.promises[other.index]? := by
        simp only [Store.memoise, Array.getElem?_modify]
      by_cases hc : id.index = other.index
      · rw [if_pos hc] at hl hr
        obtain ⟨i⟩ := id
        obtain ⟨j⟩ := other
        obtain rfl : i = j := hc
        have hsame : t.promises[i]? = t'.promises[i]? := h.same _ hid
        rw [← hsame] at hr
        refine .inr ⟨hid, hl.trans hr.symm, ?_⟩
        cases hp : t.promises[i]? with
        | none =>
          rw [hp] at hl
          intro o hh
          cases hh with
          | expression hp' | captured hp' | result hp' => cases hl.symm.trans hp'
        | some p =>
          rw [hp] at hl
          have hcaptured : t.Holds (.promise ⟨i⟩) (.env p.env) := .captured hp
          refine holds_promise hl (fun o ho => h.closed _ o hid (.expression hp ho))
            (h.closed _ _ hid hcaptured) ?_
          rintro _ ⟨⟩
          exact ha
      · rw [if_neg hc] at hl hr
        exact .inl ⟨hl, hr⟩

end Alongside

/-! ## Natives inside a region -/

/-- A native asks for nothing outside the region, as long as no reply lies outside. The
effects so far belong to no region. -/
def Conduct.within (Q : Region) : Conduct where
  asks
    | .evaluate e env | .newPromise e env => e.Within Q ∧ Q (.env env)
    | .force v | .emit v | .render v => v.Within Q
    | .applyClosure c params => c.toValue.Within Q ∧ params.Within Q
    | .applyNative _ params env => params.Within Q ∧ Q (.env env)
    | .chain env | .lookup env _ | .newChild env => Q (.env env)
    | .bind env _ v => Q (.env env) ∧ v.Within Q
    | .newMapping | .newMark => True
    | .read id _ => Q (.mapping id)
    | .write id _ v => Q (.mapping id) ∧ v.Within Q
    | .effects => False
  hears
    | .evaluate .., a | .force _, a | .applyClosure .., a | .applyNative .., a => a.value.Within Q
    | .chain _, envs => ∀ env ∈ envs, Q (.env env)
    | .lookup .., found | .read .., found => ∀ v, found = some v → v.Within Q
    | .newChild _, env => Q (.env env)
    | .newMapping, id => Q (.mapping id)
    | .newPromise .., id => Q (.promise id)
    | _, _ => True
  raises := Fault.Within Q

/-- Natives get at nothing that cannot be reached from their parameters and the
environment they are called from: every region that holds these holds all that they ask
for and answer. -/
def Library.ReadsReachable (library : Library) : Prop :=
  ∀ (Q : Region) key params env, params.Within Q → Q (.env env) →
    (library key params env).Obeys (.within Q) fun a => a.value.Within Q

/-- Things are alike that are the same and lie in the region. -/
def Likeness.within (Q : Region) : Likeness where
  World := Unit
  le _ _ := True
  like _ v v' := v = v' ∧ v.Within Q
  env _ e e' := e = e' ∧ Q (.env e)
  place _ e e' := e = e' ∧ Q (.env e)
  mark _ := Eq
  fault _ f f' := f = f' ∧ f.Within Q
  permits := (Conduct.within Q).asks
  verbatim := True
  shape := by
    rintro _ v _ ⟨rfl, hv⟩
    cases v with
    | pair mark v r =>
      rw [Value.within_pair] at hv
      exact .pair mark mark ⟨rfl, hv.1⟩ ⟨rfl, hv.2⟩
    | closure mark params body env isLazy =>
      rw [Value.within_closure] at hv
      exact .closure mark mark params params env env isLazy ⟨rfl, hv.1⟩
    | native p => exact .native rfl
    | _ => constructor
  nil _ := ⟨rfl, Value.within_nil⟩
  like_mono _ h := h
  place_mono _ h := h
  env_of_place h := h

section Law
variable {Q : Region} {s s' : Store}

/-- What a native inside the region may ask for is alike to itself. -/
theorem diagonal_within : (Likeness.within Q).Diagonal (.within Q) where
  like_eq _ _ h := h.1.symm
  env_eq _ _ h := h.1.symm
  mark_eq h := Eq.symm h
  verbatim := trivial
  permits h := h
  asks _ r h := by
    cases r with
    | applyNative p => exact ⟨⟨rfl, Value.within_native p⟩, ⟨rfl, h.1⟩, ⟨rfl, h.2⟩⟩
    | read => exact ⟨rfl, Value.within_mapping.mpr h⟩
    | write => exact ⟨⟨rfl, Value.within_mapping.mpr h.1⟩, ⟨rfl, h.2⟩⟩
    | evaluate | applyClosure | bind | newPromise => exact ⟨⟨rfl, h.1⟩, ⟨rfl, h.2⟩⟩
    | force | chain | lookup | newChild | emit | render => exact ⟨rfl, h⟩
    | newMapping | newMark => trivial
    | effects => exact h.elim
  hears {_ r _} h hr := by
    cases r with
    | evaluate | force | applyClosure | applyNative | newChild => exact hr.2
    | chain => exact fun env henv => (hr env henv).2
    | lookup | read => exact fun v hv => (hr v hv).2
    | newMapping => exact Value.within_mapping.mp hr.2
    | newPromise => exact Value.within_promise.mp hr.2
    | bind | write | newMark | emit | effects | render => trivial

/-! ## Runs -/

/-- Two outcomes that go alongside each other. -/
inductive Outcomes (Q : Region) (s s' : Store) {α β : Type} (P : α → β → Prop) :
    EStateM.Result Stop Store α → EStateM.Result Stop Store β → Prop
  | ok {a : α} {b : β} {t t' : Store} : Alongside Q s s' t t' → P a b →
      Outcomes Q s s' P (.ok a t) (.ok b t')
  | error {e : Stop} {t t' : Store} : Alongside Q s s' t t' →
      Outcomes Q s s' P (.error e t) (.error e t')

theorem Outcomes.bind {α β α' β' : Type} {P : α → β → Prop} {P' : α' → β' → Prop} {x : EvalM α}
    {y : EvalM β} {f : α → EvalM α'} {g : β → EvalM β'} {t t' : Store}
    (hxy : Outcomes Q s s' P (x t) (y t'))
    (hfg : ∀ a b u u', P a b → Alongside Q s s' u u' → Outcomes Q s s' P' (f a u) (g b u')) :
    Outcomes Q s s' P' ((x >>= f) t) ((y >>= g) t') := by
  cases hx : x t <;> cases hy : y t' <;> rw [hx, hy] at hxy <;> cases hxy
  · next hP hu =>
    rw [EvalM.bind_ok hx, EvalM.bind_ok hy]
    exact hfg _ _ _ _ hP hu
  · next hu =>
    rw [EvalM.bind_error hx, EvalM.bind_error hy]
    exact .error hu

/-- Computations that keep alongside each other and return what is fit for `P`. -/
def Together (Q : Region) (s s' : Store) {α β : Type} (w : Unit) (P : Unit → α → β → Prop)
    (x : EvalM α) (y : Unit → EvalM β) : Prop :=
  ∀ t t', Alongside Q s s' t t' → Outcomes Q s s' (P w) (x t) (y () t')

theorem Together.render {w : Unit} (d : Nat) {v v' : Value}
    (hv : (Likeness.within Q).like w v v') :
    Together Q s s' w (fun _ text text' => (Likeness.within Q).verbatim → text = text')
      (EvalM.render d v) fun _ => EvalM.render d v' := by
  obtain ⟨rfl, hv⟩ := hv
  intro t t' h
  have hr := h.render d hv
  simp only [EvalM.render, hr]
  cases t.render d v with
  | ok text => exact .ok h fun _ => rfl
  | error why => exact .error h

/-- Computations that go together follow the law of evaluation. -/
theorem Together.sideBySide (m : Machine) (d : Nat) (hnew : ∀ o, s.Beyond o → Q o)
    (hlib : m.library.ReadsReachable) :
    SideBySide (.within Q) m (fun _ => m) d (fun _ => d) (Together Q s s') where
  pure hp := fun t t' h => .ok h hp
  bind hx hf := fun t t' h => (hx t t' h).bind fun a b u u' hP hu => hf () a b trivial hP u u' hu
  render hv := .render d hv
  note source severity text text' ht := by
    cases ht trivial
    exact fun t t' h => .ok (h.note _ _) trivial
  lookup name he := by
    obtain ⟨rfl, he⟩ := he
    exact fun t t' h => .ok h (h.lookup name he)
  newPair := by
    rintro w v _ r _ ⟨rfl, hv⟩ ⟨rfl, hr⟩ t t' h
    refine .ok h.newMark ⟨?_, Value.within_pair.mpr ⟨hv, hr⟩⟩
    rw [h.marks]
  newPromise := by
    rintro w e _ env _ ⟨rfl, he⟩ ⟨rfl, henv⟩ t t' h
    obtain ⟨hu, hid, hQ⟩ := h.newPromise hnew he henv
    exact .ok hu ⟨congrArg Value.promise hid.symm, Value.within_promise.mpr hQ⟩
  enter := by
    rintro w c c' params _ ⟨hcc, hc⟩ ⟨rfl, hp⟩ t t' h
    obtain rfl : c = c' := by
      cases c
      cases c'
      cases hcc
      rfl
    have hhome : Q (.env c.env) := hc _ .home
    obtain ⟨hu, hid, hQ⟩ := h.newChild hnew hhome
      (matchParams_within c.params hp Bindings.within_empty)
    unfold Machine.enter
    simp only [bind, EStateM.bind, EvalM.act]
    split
    · exact .ok (hu.note _ _) ⟨⟨hid.symm, hQ⟩, rfl⟩
    · exact .ok hu ⟨⟨hid.symm, hQ⟩, rfl⟩
  report := by
    rintro w p _ a a' ⟨⟨⟩, -⟩ ha t t' h
    obtain ⟨rfl, -⟩ := diagonal_within.answers ha
    unfold Machine.reportFailure
    split
    · exact .ok h trivial
    · exact .ok (h.note _ _) trivial
  raise := by
    rintro α β w P fault _ ⟨rfl, hf⟩ t t' h
    have hm := h.message d hf
    simp only [EvalM.raise, hm]
    cases fault.message t d <;> exact .error h
  request := by
    intro w r r' R self self' hr ha
    cases ha with
    | chain he =>
      obtain ⟨rfl, he⟩ := he
      intro t t' h
      obtain ⟨heq, hall⟩ := h.chain he
      refine .ok h ?_
      show List.Forall₂ _ (t.chain _) (t'.chain _)
      rw [heq]
      exact List.forall₂_same.mpr fun env henv => ⟨rfl, hall env henv⟩
    | lookup name he =>
      obtain ⟨rfl, he⟩ := he
      exact fun t t' h => .ok h (h.lookup name he)
    | bind name he hv =>
      obtain ⟨rfl, he⟩ := he
      obtain ⟨rfl, hv⟩ := hv
      exact fun t t' h => .ok (h.bind name he hv) trivial
    | newChild he =>
      obtain ⟨rfl, he⟩ := he
      intro t t' h
      obtain ⟨hu, hid, hQ⟩ := h.newChild hnew he Bindings.within_empty
      exact .ok hu ⟨hid.symm, hQ⟩
    | newMapping =>
      intro t t' h
      obtain ⟨hu, hid, hQ⟩ := h.newMapping hnew Bindings.within_empty
      exact .ok hu ⟨congrArg Value.mapping hid.symm, Value.within_mapping.mpr hQ⟩
    | read name hid =>
      obtain ⟨⟨⟩, hid⟩ := hid
      intro t t' h
      obtain ⟨hsame, hwithin⟩ := h.mapping (Value.within_mapping.mp hid)
      refine .ok h ?_
      show Option.Rel _ ((t.mapping _).find? name) ((t'.mapping _).find? name)
      rw [hsame]
      exact hwithin.find?_rel name
    | write name hid hv =>
      obtain ⟨⟨⟩, hid⟩ := hid
      obtain ⟨rfl, hv⟩ := hv
      exact fun t t' h => .ok (h.write name (Value.within_mapping.mp hid) hv) trivial
    | newPromise he henv =>
      obtain ⟨rfl, he⟩ := he
      obtain ⟨rfl, henv⟩ := henv
      intro t t' h
      obtain ⟨hu, hid, hQ⟩ := h.newPromise hnew he henv
      exact .ok hu ⟨congrArg Value.promise hid.symm, Value.within_promise.mpr hQ⟩
    | newMark => exact fun t t' h => .ok h.newMark (congrArg Mark.mk h.marks)
    | emit hv =>
      obtain ⟨rfl, hv⟩ := hv
      exact fun t t' h => .ok (h.emit _) trivial
    | effects => exact hr.elim
    | render hv => exact .render d hv
  library _ := rfl
  conduct := by
    rintro w p _ params _ env _ ⟨⟨⟩, -⟩ ⟨rfl, hparams⟩ ⟨rfl, he⟩
    exact diagonal_within.scripts (fun _ _ hf => ⟨rfl, hf⟩)
      (fun _ a ha => ⟨rfl, rfl, ha⟩) (hlib Q p.routine params env hparams he)

/-- The parts of a promise in the region that waits. -/
theorem Store.AgreeOn.promise_waiting {t t' : Store} (h : AgreeOn Q t t') {id : PromiseId}
    (hid : Q (.promise id)) (hm : (t.promise id).memo = none) :
    (t.promise id).expression.Within Q ∧ Q (.env (t.promise id).env) := by
  have hlt := Store.lt_of_promise_memo hm
  have hp : t.promises[id.index]? = some (t.promise id) := by
    simp [Store.promise, Array.getD_eq_getD_getElem?, hlt]
  exact ⟨fun o ho => h.closed _ o hid (.expression hp ho), h.closed _ _ hid (.captured hp)⟩

/-- The answer of a promise in the region. -/
theorem Store.AgreeOn.promise_answer {t t' : Store} (h : AgreeOn Q t t') {id : PromiseId}
    (hid : Q (.promise id)) {a : Answer} (hm : (t.promise id).memo = some a) :
    a.value.Within Q := by
  have hshown := h.promise_shown hid
  simpa only [Promise.shown, Promise.forced, Promise.result, hm, Option.isSome_some, if_true,
    Option.getD_some] using hshown

/-- **Every call keeps two runs together.** -/
theorem together_perform {m : Machine} (hnew : ∀ o, s.Beyond o → Q o)
    (hlib : m.library.ReadsReachable) (depth : Nat) {w : Unit} {c c' : Call}
    (hc : (Likeness.within Q).Calls w c c') :
    Together Q s s' w (Likeness.within Q).Answers (m.perform depth c)
      fun _ => m.perform depth c' := by
  induction depth generalizing w c c' with
  | zero => exact fun t t' h => .error h
  | succ depth ih =>
    have law : SideBySide (.within Q) m (fun _ => m) depth (fun _ => depth) (Together Q s s') :=
      Together.sideBySide m depth hnew hlib
    have hself : ∀ w c c', (Likeness.within Q).Calls w c c' →
        Together Q s s' w (Likeness.within Q).Answers (m.perform depth c)
          fun _ => m.perform depth c' := fun w c c' hc => ih hc
    refine law.step hself
      (fun w v v' hv => law.forceWith hself (fun w t t' h => .error h) m.links hv) ?_ hc
    rintro w id _ ⟨⟨⟩, hid⟩ t t' h
    have hQ := Value.within_promise.mp hid
    have hsame := h.promise hQ
    show Outcomes Q s s' _ (Machine.forceOnceWith (m.perform depth) id t)
      (Machine.forceOnceWith (m.perform depth) id t')
    cases hm : (t.promise id).memo with
    | some a =>
      rw [forceOnceWith_of_some hm, forceOnceWith_of_some (hsame ▸ hm)]
      exact .ok h ⟨rfl, rfl, h.promise_answer hQ hm⟩
    | none =>
      -- both sides evaluate the same expression and store what they get
      obtain ⟨he, henv⟩ := h.promise_waiting hQ hm
      rw [forceOnceWith_of_none hm, forceOnceWith_of_none (hsame ▸ hm), hsame]
      have heval := hself w _ _ (.evaluate ⟨rfl, he⟩ ⟨rfl, henv⟩)
      refine (heval t t' h).bind fun a a' u u' ha hu => ?_
      obtain ⟨rfl, -, hv⟩ := diagonal_within.answers ha
      exact .ok (hu.memoise hQ hv) ⟨rfl, rfl, hv⟩

end Law

/-! ## Main result -/

/-- What a call refers to by itself. -/
def Call.Mentions : Call → Region
  | .evaluate e env, o => e.Mentions o ∨ o = .env env
  | .arguments args env, o | .deferred args env, o => args.Mentions o ∨ o = .env env
  | .force id, o => o = .promise id
  | .closure c params, o => c.toValue.Mentions o ∨ params.Mentions o
  | .native _ params env, o => params.Mentions o ∨ o = .env env

/-- The answer or the stop of an outcome, without the store. -/
def verdict {α : Type} : EStateM.Result Stop Store α → Except Stop α
  | .ok a _ => .ok a
  | .error e _ => .error e

/-- A call is alike to itself in every region that holds what it refers to. -/
theorem calls_within {Q : Region} {c : Call} (h : ∀ o, c.Mentions o → Q o) :
    (Likeness.within Q).Calls () c c := by
  cases c with
  | evaluate e env => exact .evaluate ⟨rfl, fun o ho => h o (.inl ho)⟩ ⟨rfl, h _ (.inr rfl)⟩
  | arguments args env => exact .arguments ⟨rfl, fun o ho => h o (.inl ho)⟩ ⟨rfl, h _ (.inr rfl)⟩
  | deferred args env => exact .deferred ⟨rfl, fun o ho => h o (.inl ho)⟩ ⟨rfl, h _ (.inr rfl)⟩
  | force id => exact .force ⟨rfl, Value.within_promise.mpr (h _ rfl)⟩
  | closure c params =>
    exact .closure ⟨rfl, fun o ho => h o (.inl ho)⟩ ⟨rfl, fun o ho => h o (.inr ho)⟩
  | native p params env =>
    exact .native ⟨rfl, Value.within_native p⟩ ⟨rfl, fun o ho => h o (.inl ho)⟩
      ⟨rfl, h _ (.inr rfl)⟩

/-- **A call reads and writes only what it can reach.** Two stores differ in the
contents of objects alone that the call cannot reach. Then the call ends alike from both,
with the same answer or stop. It leaves the same journal and effects and equally many
objects. Those that it could reach, and those that it made, have the same contents on
both sides, and all others have the contents they had. -/
theorem perform_noninterference (m : Machine) (depth : Nat) (c : Call) (s s' : Store)
    (hlib : m.library.ReadsReachable) (hd : Store.DiffersOutside (s.Reach c.Mentions) s s') :
    verdict (m.perform depth c s) = verdict (m.perform depth c s') ∧
      SameCounts (endStore (m.perform depth c s)) (endStore (m.perform depth c s')) ∧
      (∀ o, s.Reach c.Mentions o ∨ s.Beyond o →
        (endStore (m.perform depth c s)).SameAt (endStore (m.perform depth c s')) o) ∧
      ∀ o, ¬ (s.Reach c.Mentions o ∨ s.Beyond o) →
        (endStore (m.perform depth c s)).SameAt s o ∧
        (endStore (m.perform depth c s')).SameAt s' o := by
  have hcalls := calls_within (Q := fun o => s.Reach c.Mentions o ∨ s.Beyond o) (c := c)
    fun o ho => .inl (.start ho)
  have hrun : Outcomes (fun o => s.Reach c.Mentions o ∨ s.Beyond o) s s' _ (m.perform depth c s)
      (m.perform depth c s') :=
    together_perform (fun o ho => .inr ho) hlib depth hcalls s s' (.start hd)
  have hend : ∀ t t', Alongside (fun o => s.Reach c.Mentions o ∨ s.Beyond o) s s' t t' →
      SameCounts t t' ∧ (∀ o, s.Reach c.Mentions o ∨ s.Beyond o → t.SameAt t' o) ∧
      ∀ o, ¬ (s.Reach c.Mentions o ∨ s.Beyond o) → t.SameAt s o ∧ t'.SameAt s' o :=
    fun t t' h => ⟨h.toSameCounts, h.same, fun o ho => ⟨h.left o ho, h.right o ho⟩⟩
  cases hl : m.perform depth c s <;> cases hr : m.perform depth c s' <;> rw [hl, hr] at hrun <;>
    cases hrun
  · next ha hu => exact ⟨congrArg Except.ok (diagonal_within.answers ha).1.symm, hend _ _ hu⟩
  · next hu => exact ⟨rfl, hend _ _ hu⟩

/-! ## A sample -/

/-- What can be reached lies in every closed region that holds the start. -/
theorem Store.Reach.subset {s : Store} {base Q : Region} (hb : ∀ o, base o → Q o)
    (hc : ∀ o o', Q o → s.Holds o o' → Q o') {o : Object} (h : s.Reach base o) : Q o := by
  induction h with
  | start ho => exact hb _ ho
  | step _ hh ih => exact hc _ _ ih hh

/-- A machine with the bootstrap native alone. -/
def readerMachine : Machine :=
  { Prelude.machine with library := Bootstrap.extend fun _ _ _ => pure .failure }

theorem bootstrap_readsReachable : readerMachine.library.ReadsReachable := by
  intro Q key params env hp he
  unfold readerMachine Bootstrap.extend
  dsimp only
  split
  · unfold Bootstrap.eval
    split
    · rw [Value.within_pair] at hp
      exact .request ⟨hp.1, he⟩ fun _ ha => ha
    · exact Value.within_nil
  · exact Value.within_nil

/-- An environment with `x`, and inside it that of a caller, with an `x` of its own. -/
def caller (n : Int) : Store where
  mappings := #[⟨[("eval", .native ⟨⟨0⟩, "eval", "eval", false⟩), ("x", .integer 1)]⟩,
    ⟨[("x", .integer n)]⟩]
  environments := #[⟨⟨0⟩, none⟩, ⟨⟨1⟩, some ⟨0⟩⟩]

/-- A closure of the outer environment that evaluates the value of `x`. -/
def reader : Closure := ⟨⟨1⟩, [], form [.symbol "eval", .symbol "x"], ⟨0⟩, false⟩

/-- The closure reaches the outer environment and its frame. -/
theorem reader_reach {n : Int} {o : Object}
    (h : (caller n).Reach (Call.closure reader .nil).Mentions o) :
    o = .env ⟨0⟩ ∨ o = .mapping ⟨0⟩ := by
  refine h.subset (Q := fun o => o = .env ⟨0⟩ ∨ o = .mapping ⟨0⟩) (fun o ho => ?_)
    fun o o' ho hh => ?_
  · -- the body mentions nothing
    have hbody : (form [.symbol "eval", .symbol "x"]).Within fun _ => False := by
      simp [form]
    rcases ho with ho | ho
    · cases ho with
      | body ho => exact (hbody o ho).elim
      | home => exact .inl rfl
    · cases ho
  · rcases ho with rfl | rfl
    · cases hh with
      | frame he =>
        cases he
        exact .inr rfl
      | parent hp => cases hp
    · cases hh with
      | entry hm ho =>
        have hplain : ((caller n).mapping ⟨0⟩).Within fun _ => False := by
          intro name v hv
          simp only [caller, Store.mapping, Array.getD_eq_getD_getElem?] at hv
          rcases List.mem_cons.mp hv with hv | hv
          · cases hv
            exact Value.within_native _
          · cases List.mem_singleton.mp hv
            exact Value.within_integer 1
        exact (hplain _ _ hm o' ho).elim

theorem caller_differsOutside :
    Store.DiffersOutside ((caller 2).Reach (Call.closure reader .nil).Mentions) (caller 2)
      (caller 3) where
  toSameCounts := ⟨rfl, rfl, rfl, rfl, rfl, rfl⟩
  same o ho := by
    rcases reader_reach ho with rfl | rfl <;> rfl

/-- A closure does not see what its caller binds, and leaves it. -/
theorem reader_ignores_caller :
    (readerMachine.library.ReadsReachable ∧
      Store.DiffersOutside ((caller 2).Reach (Call.closure reader .nil).Mentions) (caller 2)
        (caller 3)) ∧
      verdict (readerMachine.perform 9 (.closure reader .nil) (caller 2)) =
        verdict (readerMachine.perform 9 (.closure reader .nil) (caller 3)) ∧
      (endStore (readerMachine.perform 9 (.closure reader .nil) (caller 3))).SameAt (caller 3)
        (.mapping ⟨1⟩) := by
  have hlib := bootstrap_readsReachable
  have hd := caller_differsOutside
  obtain ⟨hsame, -, -, hleft⟩ := perform_noninterference readerMachine 9 (.closure reader .nil)
    (caller 2) (caller 3) hlib hd
  refine ⟨⟨hlib, hd⟩, hsame, (hleft (.mapping ⟨1⟩) ?_).2⟩
  rintro (h | h)
  · rcases reader_reach h with h | h <;> cases h
  · have hlt : ¬ (caller 2).mappings.size ≤ 1 := by decide
    exact hlt h

end LispCore
