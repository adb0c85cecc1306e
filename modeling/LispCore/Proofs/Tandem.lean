import LispCore.Proofs.Memo
import LispCore.Proofs.Renaming

/-! # Runs in two stores that coincide up to names

Two stores coincide on the objects of a renaming if these have the same contents under
their other names (`Coincide`). What else the stores hold does not matter: in the
second one all sorts of objects may stand between those of the renaming.

A run from renamed values in the first store has a counterpart in the second. Both end
in the same way, the renaming grows by what they make, and the second leaves all objects
alone that are not in the renaming (`Further`). This is shown of each operation on stores, of
which most change or make one object (`Coincide.put`), and carried over to all calls by the law
of two evaluations side by side (`tandem_perform`). -/
namespace LispCore

variable {fixed : Mark → Prop} {ρ σ τ : Renaming fixed} {s s' t t' u u' : Store}

/-! ## Stores that coincide -/

/-- Promises with renamed parts. -/
structure Promise.Renamed (ρ : Renaming fixed) (p p' : Promise) : Prop where
  expression : LispCore.Renamed ρ p.expression p'.expression
  env : ρ.object (.env p.env) (.env p'.env)
  memo : Option.Rel ((Likeness.renaming fixed).Answers ρ) p.memo p'.memo

/-- The environments around two others are renamed, and older. -/
structure Around (ρ : Renaming fixed) (env env' outer outer' : EnvId) : Prop where
  object : ρ.object (.env outer) (.env outer')
  left : outer.index < env.index
  right : outer'.index < env'.index

/-- The stores have the objects, with the same contents under other names. -/
inductive Matches (ρ : Renaming fixed) (s s' : Store) : Object → Object → Prop
  | mapping {id id' : MappingId} : ¬ s.Beyond (.mapping id) → ¬ s'.Beyond (.mapping id') →
      (s.mapping id).Rel (Renamed ρ) (s'.mapping id') →
      Matches ρ s s' (.mapping id) (.mapping id')
  | env {env env' : EnvId} {e e' : Environment} : s.environment? env = some e →
      s'.environment? env' = some e' → ρ.object (.mapping e.frame) (.mapping e'.frame) →
      Option.Rel (Around ρ env env') e.parent e'.parent → Matches ρ s s' (.env env) (.env env')
  | promise {id id' : PromiseId} {p p' : Promise} : s.promises[id.index]? = some p →
      s'.promises[id'.index]? = some p' → p.Renamed ρ p' →
      Matches ρ s s' (.promise id) (.promise id')

/-- The stores coincide on the objects of the renaming. -/
structure Coincide (ρ : Renaming fixed) (s s' : Store) : Prop where
  object {o o' : Object} : ρ.object o o' → Matches ρ s s' o o'
  mark {i i' : Mark} : ρ.mark i i' → i.index < s.marks ∧ i'.index < s'.marks

namespace Matches
variable {o o' : Object}

theorem mono (h : ρ.Le σ) (hm : Matches ρ s s' o o') : Matches σ s s' o o' := by
  cases hm with
  | mapping hb hb' hc => exact .mapping hb hb' (hc.mono fun _ _ hv => hv.mono h)
  | env he he' hf hp =>
    refine .env he he' (h.object hf) (optionRel_mono (fun _ _ ho => ?_) hp)
    exact ⟨h.object ho.object, ho.left, ho.right⟩
  | promise hp hp' hc =>
    refine .promise hp hp' ⟨hc.expression.mono h, h.object hc.env, ?_⟩
    exact optionRel_mono (fun _ _ ha => ha.mono h) hc.memo

/-- Only the contents of the objects themselves count. -/
theorem congr (hm : Matches ρ s s' o o') (hs : s.SameAt t o) (hs' : s'.SameAt t' o')
    (hb : t.Beyond o → s.Beyond o) (hb' : t'.Beyond o' → s'.Beyond o') :
    Matches ρ t t' o o' := by
  cases hm with
  | mapping hin hin' hc =>
    refine .mapping (fun h => hin (hb h)) (fun h => hin' (hb' h)) ?_
    rw [Store.SameAt] at hs hs'
    rw [← hs, ← hs']
    exact hc
  | env he he' hf hp => exact .env (hs ▸ he) (hs' ▸ he') hf hp
  | promise hp hp' hc => exact .promise (hs ▸ hp) (hs' ▸ hp') hc

theorem left (hm : Matches ρ s s' o o') : ¬ s.Beyond o := by
  cases hm with
  | mapping hb _ _ => exact hb
  | env he => exact Nat.not_le.mpr (Array.getElem?_eq_some_iff.mp he).1
  | promise hp => exact Nat.not_le.mpr (Array.getElem?_eq_some_iff.mp hp).1

theorem right (hm : Matches ρ s s' o o') : ¬ s'.Beyond o' := by
  cases hm with
  | mapping _ hb _ => exact hb
  | env _ he => exact Nat.not_le.mpr (Array.getElem?_eq_some_iff.mp he).1
  | promise _ hp => exact Nat.not_le.mpr (Array.getElem?_eq_some_iff.mp hp).1

end Matches

namespace Coincide

theorem mapping (h : Coincide ρ s s') {id id' : MappingId}
    (hid : ρ.object (.mapping id) (.mapping id')) :
    (s.mapping id).Rel (Renamed ρ) (s'.mapping id') := by
  cases h.object hid with
  | mapping _ _ hc => exact hc

theorem promise (h : Coincide ρ s s') {id id' : PromiseId}
    (hid : ρ.object (.promise id) (.promise id')) :
    (s.promise id).Renamed ρ (s'.promise id') := by
  cases h.object hid with
  | promise hp hp' hc =>
    simpa only [Store.promise, Array.getD_eq_getD_getElem?, hp, hp', Option.getD_some] using hc

theorem shown (h : Coincide ρ s s') {id id' : PromiseId}
    (hid : ρ.object (.promise id) (.promise id')) :
    (s.promise id).forced = (s'.promise id').forced ∧
      Renamed ρ (s.promise id).shown (s'.promise id').shown := by
  have hp := h.promise hid
  have hmemo := hp.memo
  unfold Promise.shown Promise.forced Promise.result
  generalize (s.promise id).memo = a, (s'.promise id').memo = a' at hmemo ⊢
  cases hmemo with
  | none => exact ⟨rfl, hp.expression⟩
  | some ha => exact ⟨rfl, ha.value⟩

/-! ## Names and texts -/

theorem frame (h : Coincide ρ s s') {env env' : EnvId} (he : ρ.object (.env env) (.env env')) :
    (s.frame env).Rel (Renamed ρ) (s'.frame env') := by
  cases h.object he with
  | env he he' hf _ =>
    simp only [Store.frame, he, he']
    exact h.mapping hf

theorem linked (h : Coincide ρ s s') (env env' : EnvId) (he : ρ.object (.env env) (.env env')) :
    EnvsLinked (fun e e' => ρ.object (.env e) (.env e')) s s' env env' := by
  cases h.object he with
  | env henv henv' _ hp =>
    exact ⟨_, _, henv, henv', optionRel_mono (fun _ _ ho => ⟨ho.object, ho.left, ho.right⟩) hp⟩

theorem chain (h : Coincide ρ s s') {env env' : EnvId} (he : ρ.object (.env env) (.env env')) :
    List.Forall₂ (fun e e' => ρ.object (.env e) (.env e')) (s.chain env) (s'.chain env') :=
  chain_rel h.linked he

theorem lookup (h : Coincide ρ s s') {env env' : EnvId} (name : String)
    (he : ρ.object (.env env) (.env env')) :
    Option.Rel (Renamed ρ) (s.lookup env name) (s'.lookup env' name) :=
  findSome?_rel (h.chain he) fun _ _ he => (h.frame he).find? name

/-- Stores that coincide show the same of what is renamed. -/
theorem reveals (h : Coincide ρ s s') : Reveals ρ.correspondence s s' where
  mark := ρ.mark_iff
  mapping hi hk := by simpa using ρ.object_iff hi hk
  contents := h.mapping
  forced hid := (h.shown hid).1
  shown _ _ hid := (h.shown hid).2

end Coincide

/-! ## Going on -/

/-- Two runs have gone on from `ρ` and a second store `s'` to `σ` and the stores `t` and `t'`.
The renaming has grown by what is new in the second store, where all else is as it was. -/
structure Further (ρ : Renaming fixed) (s' : Store) (σ : Renaming fixed) (t t' : Store) : Prop where
  le : ρ.Le σ
  coincide : Coincide σ t t'
  grown : ∀ o, t'.Beyond o → s'.Beyond o
  marks : s'.marks ≤ t'.marks
  new : ∀ o o', σ.object o o' → ρ.object o o' ∨ s'.Beyond o'
  keep : ∀ o', ¬ s'.Beyond o' → (∀ o, ¬ ρ.object o o') → s'.SameAt t' o'

theorem Further.trans (h : Further ρ s' σ t t') (h' : Further σ t' τ u u') :
    Further ρ s' τ u u' where
  le := h.le.trans h'.le
  coincide := h'.coincide
  grown o ho := h.grown o (h'.grown o ho)
  marks := Nat.le_trans h.marks h'.marks
  new o o' ho := by
    rcases h'.new o o' ho with ho | hb
    · exact h.new o o' ho
    · exact .inr (h.grown o' hb)
  keep o' hin hout := by
    refine (h.keep o' hin hout).trans (h'.keep o' (fun hb => hin (h.grown o' hb)) fun o ho => ?_)
    rcases h.new o o' ho with ho | hb
    · exact hout o ho
    · exact hin hb

/-- The stores have the same objects with the same contents. -/
structure Store.SameObjects (s t : Store) : Prop where
  same : ∀ o, s.SameAt t o
  grown : ∀ o, t.Beyond o → s.Beyond o
  marks : t.marks = s.marks

/-- The stores have the same objects with the same contents, except for one. -/
structure Store.SameBut (o : Object) (s t : Store) : Prop where
  same : ∀ p, p ≠ o → s.SameAt t p
  grown : ∀ p, t.Beyond p → s.Beyond p
  marks : t.marks = s.marks

namespace Store

theorem SameObjects.refl (s : Store) : s.SameObjects s := ⟨.refl s, fun _ hb => hb, rfl⟩

theorem sameObjects_note (s : Store) (level : Int) (r : Record) :
    s.SameObjects (s.note level r) := by
  unfold note
  split
  · refine ⟨fun o => ?_, fun o hb => ?_, rfl⟩
    · cases o <;> rfl
    · cases o <;> exact hb
  · exact .refl s

theorem sameObjects_emit (s : Store) (v : Value) : s.SameObjects (s.emit v) where
  same o := by cases o <;> rfl
  grown o hb := by cases o <;> exact hb
  marks := rfl

end Store

namespace Coincide

/-- Only the objects of the renaming count. -/
theorem congr (h : Coincide ρ s s') (hs : ∀ o o', ρ.object o o' → s.SameAt t o)
    (hs' : ∀ o o', ρ.object o o' → s'.SameAt t' o') (hb : ∀ o, t.Beyond o → s.Beyond o)
    (hb' : ∀ o, t'.Beyond o → s'.Beyond o) (hmarks : s.marks ≤ t.marks)
    (hmarks' : s'.marks ≤ t'.marks) : Coincide ρ t t' where
  object ho := (h.object ho).congr (hs _ _ ho) (hs' _ _ ho) (hb _) (hb' _)
  mark hi := by
    obtain ⟨hlt, hlt'⟩ := h.mark hi
    exact ⟨Nat.lt_of_lt_of_le hlt hmarks, Nat.lt_of_lt_of_le hlt' hmarks'⟩

theorem stay (h : Coincide ρ s s') (hs : s.SameObjects t) (hs' : s'.SameObjects t') :
    Further ρ s' ρ t t' where
  le := .refl ρ
  coincide := h.congr (fun o _ _ => hs.same o) (fun _ o' _ => hs'.same o') hs.grown hs'.grown
    (Nat.le_of_eq hs.marks.symm) (Nat.le_of_eq hs'.marks.symm)
  grown := hs'.grown
  marks := Nat.le_of_eq hs'.marks.symm
  new _ _ := .inl
  keep o' _ _ := hs'.same o'

theorem refl (h : Coincide ρ s s') : Further ρ s' ρ s s' := h.stay (.refl s) (.refl s')

theorem initial (h : ∀ i, fixed i → i.index < s.marks)
    (h' : ∀ i, fixed i → i.index < s'.marks) : Coincide (.initial fixed) s s' where
  object ho := ho.elim
  mark hi := ⟨h _ hi.1, hi.2 ▸ h' _ hi.1⟩

/-- One object has new contents on each side, and these match. Either both objects are new,
or they are one and the same under the renaming. -/
theorem put (h : Coincide ρ s s') {o o' : Object} (ht : s.SameBut o t) (ht' : s'.SameBut o' t')
    (hiff : ∀ p p', ρ.object p p' → (p = o ↔ p' = o')) (hnew : s'.Beyond o' ∨ ∃ p, ρ.object p o')
    (hmatch : Matches (ρ.extend o o' hiff) t t' o o') :
    Further ρ s' (ρ.extend o o' hiff) t t' where
  le := ρ.le_extend hiff
  coincide :=
    { object := by
        intro p p' hp
        rcases hp with hp | ⟨rfl, rfl⟩
        · by_cases hpo : p = o
          · obtain rfl := hpo
            obtain rfl := (hiff p p' hp).mp rfl
            exact hmatch
          · have hpo' : p' ≠ o' := fun he => hpo ((hiff p p' hp).mpr he)
            exact ((h.object hp).congr (ht.same p hpo) (ht'.same p' hpo') (ht.grown p)
              (ht'.grown p')).mono (ρ.le_extend hiff)
        · exact hmatch
      mark := fun hi => by
        rw [ht.marks, ht'.marks]
        exact h.mark hi }
  grown := ht'.grown
  marks := Nat.le_of_eq ht'.marks.symm
  new p p' hp := by
    rcases hp with hp | ⟨rfl, rfl⟩
    · exact .inl hp
    · rcases hnew with hb | ⟨q, hq⟩
      · exact .inr hb
      · obtain rfl := (hiff q p' hq).mpr rfl
        exact .inl hq
  keep p' hin hout := by
    refine ht'.same p' fun he => ?_
    rcases hnew with hb | ⟨q, hq⟩
    · exact hin (he ▸ hb)
    · exact hout q (he ▸ hq)

/-- Objects that both stores do not have yet are in no renaming. -/
theorem iff_of_beyond (h : Coincide ρ s s') {o o' : Object} (hb : s.Beyond o) (hb' : s'.Beyond o')
    (p p' : Object) (hp : ρ.object p p') : p = o ↔ p' = o' := by
  have hm := h.object hp
  exact ⟨fun he => absurd hb (he ▸ hm.left), fun he => absurd hb' (he ▸ hm.right)⟩

theorem newMark (h : Coincide ρ s s') :
    ∃ σ, Further ρ s' σ s.newMark.2 s'.newMark.2 ∧ σ.mark s.newMark.1 s'.newMark.1 := by
  have hiff : ∀ i i', ρ.mark i i' → (i = s.newMark.1 ↔ i' = s'.newMark.1) := by
    intro i i' hi
    obtain ⟨hlt, hlt'⟩ := h.mark hi
    constructor
    · intro he
      rw [he] at hlt
      exact absurd hlt (Nat.lt_irrefl _)
    · intro he
      rw [he] at hlt'
      exact absurd hlt' (Nat.lt_irrefl _)
  have hle : ρ.Le (ρ.extendMark s.newMark.1 s'.newMark.1 hiff) := ⟨fun ho => ho, .inl⟩
  refine ⟨_, ⟨hle, ⟨fun {o o'} ho => ?_, fun {i i'} hi => ?_⟩, fun o hb => ?_, Nat.le_succ _,
    fun _ _ => .inl, fun o' _ _ => ?_⟩, .inr ⟨rfl, rfl⟩⟩
  · refine ((h.object ho).mono hle).congr ?_ ?_ ?_ ?_
    · cases o <;> rfl
    · cases o' <;> rfl
    · intro hb
      cases o <;> exact hb
    · intro hb
      cases o' <;> exact hb
  · rcases hi with hi | ⟨rfl, rfl⟩
    · obtain ⟨hlt, hlt'⟩ := h.mark hi
      exact ⟨Nat.lt_succ_of_lt hlt, Nat.lt_succ_of_lt hlt'⟩
    · exact ⟨Nat.lt_succ_self _, Nat.lt_succ_self _⟩
  · cases o <;> exact hb
  · cases o' <;> rfl

end Coincide

/-! ## Operations on one object -/

namespace Store

theorem sameBut_write (s : Store) (id : MappingId) (name : String) (v : Value) :
    s.SameBut (.mapping id) (s.write id name v) where
  same p hp := by
    cases p with
    | mapping other =>
      have hne : ¬ (id = other ∧ id.index < s.mappings.size) := fun h => hp (h.1 ▸ rfl)
      rw [SameAt, mapping_write, if_neg hne]
    | _ => rfl
  grown p hb := by
    cases p with
    | mapping => simpa [Beyond, write] using hb
    | _ => exact hb
  marks := rfl

theorem sameBut_newMapping (s : Store) (contents : Bindings Value) :
    s.SameBut (.mapping (s.newMapping contents).1) (s.newMapping contents).2 where
  same p hp := by
    cases p with
    | mapping other =>
      have hne : other ≠ (s.newMapping contents).1 := fun h => hp (h ▸ rfl)
      rw [SameAt, mapping_newMapping, if_neg hne]
    | _ => rfl
  grown p hb := by
    cases p with
    | mapping id =>
      have hb : s.mappings.size + 1 ≤ id.index := by simpa [Beyond, newMapping] using hb
      exact Nat.le_of_succ_le hb
    | _ => exact hb
  marks := rfl

/-- The frame of a new environment is there before the environment. -/
theorem sameBut_newEnvironment (s : Store) (parent : Option EnvId) (contents : Bindings Value) :
    (s.newMapping contents).2.SameBut (.env (s.newEnvironment parent contents).1)
      (s.newEnvironment parent contents).2 where
  same p hp := by
    cases p with
    | env other =>
      have hne : other ≠ (s.newEnvironment parent contents).1 := fun h => hp (h ▸ rfl)
      rw [SameAt, environment?_newEnvironment, if_neg hne]
      rfl
    | _ => rfl
  grown p hb := by
    cases p with
    | env env =>
      have hb : s.environments.size + 1 ≤ env.index := by
        simpa [Beyond, newEnvironment, newMapping] using hb
      exact Nat.le_of_succ_le hb
    | _ => exact hb
  marks := rfl

theorem sameBut_newPromise (s : Store) (e : Value) (env : EnvId) :
    s.SameBut (.promise (s.newPromise e env).1) (s.newPromise e env).2 where
  same p hp := by
    cases p with
    | promise other =>
      have hne : other.index ≠ s.promises.size := by
        intro h
        obtain ⟨i⟩ := other
        exact hp (congrArg (fun i => Object.promise ⟨i⟩) h)
      simp [SameAt, newPromise, Array.getElem?_push, hne]
    | _ => rfl
  grown p hb := by
    cases p with
    | promise id =>
      have hb : s.promises.size + 1 ≤ id.index := by simpa [Beyond, newPromise] using hb
      exact Nat.le_of_succ_le hb
    | _ => exact hb
  marks := rfl

theorem sameBut_memoise (s : Store) (id : PromiseId) (a : Answer) :
    s.SameBut (.promise id) (s.memoise id a) where
  same p hp := by
    cases p with
    | promise other =>
      have hne : id.index ≠ other.index := by
        intro h
        obtain ⟨i⟩ := other
        exact hp (congrArg (fun i => Object.promise ⟨i⟩) h.symm)
      simp [SameAt, memoise, Array.getElem?_modify, hne]
    | _ => rfl
  grown p hb := by
    cases p with
    | promise => simpa [Beyond, memoise] using hb
    | _ => exact hb
  marks := rfl

end Store

namespace Coincide

theorem write (h : Coincide ρ s s') {id id' : MappingId}
    (hid : ρ.object (.mapping id) (.mapping id')) (name : String) {v v' : Value}
    (hv : Renamed ρ v v') :
    ∃ σ, Further ρ s' σ (s.write id name v) (s'.write id' name v') := by
  have hiff : ∀ p p', ρ.object p p' → (p = .mapping id ↔ p' = .mapping id') :=
    fun _ _ hp => ρ.object_iff hp hid
  refine ⟨_, h.put (s.sameBut_write id name v) (s'.sameBut_write id' name v') hiff
    (.inr ⟨_, hid⟩) ?_⟩
  cases h.object hid with
  | mapping hin hin' hc =>
    have hle := ρ.le_extend hiff
    refine .mapping (fun hb => hin ((s.sameBut_write id name v).grown _ hb))
      (fun hb => hin' ((s'.sameBut_write id' name v').grown _ hb)) ?_
    rw [Store.mapping_write, Store.mapping_write, if_pos ⟨rfl, Nat.not_le.mp hin⟩,
      if_pos ⟨rfl, Nat.not_le.mp hin'⟩]
    exact (hc.mono fun _ _ hv => hv.mono hle).insert name (hv.mono hle)

theorem bind (h : Coincide ρ s s') {env env' : EnvId} (he : ρ.object (.env env) (.env env'))
    (name : String) {v v' : Value} (hv : Renamed ρ v v') :
    ∃ σ, Further ρ s' σ (s.bind env name v) (s'.bind env' name v') := by
  cases h.object he with
  | env henv henv' hframe _ =>
    simp only [Store.bind, henv, henv']
    exact h.write hframe name hv

theorem newMapping (h : Coincide ρ s s') {contents contents' : Bindings Value}
    (hc : contents.Rel (Renamed ρ) contents') :
    ∃ σ, Further ρ s' σ (s.newMapping contents).2 (s'.newMapping contents').2 ∧
      σ.object (.mapping (s.newMapping contents).1) (.mapping (s'.newMapping contents').1) := by
  have hb : s.Beyond (.mapping (s.newMapping contents).1) := Nat.le_refl _
  have hb' : s'.Beyond (.mapping (s'.newMapping contents').1) := Nat.le_refl _
  have hiff := h.iff_of_beyond hb hb'
  refine ⟨_, h.put (s.sameBut_newMapping contents) (s'.sameBut_newMapping contents') hiff
    (.inl hb') ?_, ρ.extend_self hiff⟩
  refine .mapping ?_ ?_ ?_
  · simp [Store.Beyond, Store.newMapping]
  · simp [Store.Beyond, Store.newMapping]
  · rw [Store.mapping_newMapping, Store.mapping_newMapping, if_pos rfl, if_pos rfl]
    exact hc.mono fun _ _ hv => hv.mono (ρ.le_extend hiff)

theorem newEnvironment (h : Coincide ρ s s') {parent parent' : Option EnvId}
    (hp : Option.Rel (Around ρ ⟨s.environments.size⟩ ⟨s'.environments.size⟩) parent parent')
    {contents contents' : Bindings Value} (hc : contents.Rel (Renamed ρ) contents') :
    ∃ σ, Further ρ s' σ (s.newEnvironment parent contents).2
        (s'.newEnvironment parent' contents').2 ∧
      σ.object (.env (s.newEnvironment parent contents).1)
        (.env (s'.newEnvironment parent' contents').1) := by
  obtain ⟨σ, hon, hframe⟩ := h.newMapping hc
  have hb : (s.newMapping contents).2.Beyond (.env (s.newEnvironment parent contents).1) :=
    Nat.le_refl _
  have hb' : (s'.newMapping contents').2.Beyond (.env (s'.newEnvironment parent' contents').1) :=
    Nat.le_refl _
  have hiff := hon.coincide.iff_of_beyond hb hb'
  have hle := σ.le_extend hiff
  refine ⟨_, hon.trans (hon.coincide.put (s.sameBut_newEnvironment parent contents)
    (s'.sameBut_newEnvironment parent' contents') hiff (.inl hb') ?_), σ.extend_self hiff⟩
  have hnew := s.environment?_newEnvironment parent contents (s.newEnvironment parent contents).1
  have hnew' :=
    s'.environment?_newEnvironment parent' contents' (s'.newEnvironment parent' contents').1
  rw [if_pos rfl] at hnew hnew'
  refine .env hnew hnew' (hle.object hframe) (optionRel_mono (fun _ _ ho => ?_) hp)
  exact ⟨hle.object (hon.le.object ho.object), ho.left, ho.right⟩

theorem newChild (h : Coincide ρ s s') {env env' : EnvId} (he : ρ.object (.env env) (.env env'))
    {contents contents' : Bindings Value} (hc : contents.Rel (Renamed ρ) contents') :
    ∃ σ, Further ρ s' σ (s.newChild env contents).2 (s'.newChild env' contents').2 ∧
      σ.object (.env (s.newChild env contents).1) (.env (s'.newChild env' contents').1) := by
  have hin : env.index < s.environments.size := Nat.not_le.mp (h.object he).left
  have hin' : env'.index < s'.environments.size := Nat.not_le.mp (h.object he).right
  simp only [Store.newChild, if_pos hin, if_pos hin']
  exact h.newEnvironment (.some ⟨he, hin, hin'⟩) hc

theorem newPromise (h : Coincide ρ s s') {e e' : Value} (he : Renamed ρ e e') {env env' : EnvId}
    (henv : ρ.object (.env env) (.env env')) :
    ∃ σ, Further ρ s' σ (s.newPromise e env).2 (s'.newPromise e' env').2 ∧
      σ.object (.promise (s.newPromise e env).1) (.promise (s'.newPromise e' env').1) := by
  have hb : s.Beyond (.promise (s.newPromise e env).1) := Nat.le_refl _
  have hb' : s'.Beyond (.promise (s'.newPromise e' env').1) := Nat.le_refl _
  have hiff := h.iff_of_beyond hb hb'
  have hle := ρ.le_extend hiff
  refine ⟨_, h.put (s.sameBut_newPromise e env) (s'.sameBut_newPromise e' env') hiff (.inl hb') ?_,
    ρ.extend_self hiff⟩
  have hnew : ∀ (s : Store) e env, (s.newPromise e env).2.promises[(s.newPromise e env).1.index]? =
      some ⟨e, env, none⟩ := fun s e env => by simp [Store.newPromise]
  exact .promise (hnew s e env) (hnew s' e' env') ⟨he.mono hle, hle.object henv, .none⟩

theorem memoise (h : Coincide ρ s s') {id id' : PromiseId}
    (hid : ρ.object (.promise id) (.promise id')) {a a' : Answer}
    (ha : (Likeness.renaming fixed).Answers ρ a a') :
    ∃ σ, Further ρ s' σ (s.memoise id a) (s'.memoise id' a') := by
  have hiff : ∀ p p', ρ.object p p' → (p = .promise id ↔ p' = .promise id') :=
    fun _ _ hp => ρ.object_iff hp hid
  refine ⟨_, h.put (s.sameBut_memoise id a) (s'.sameBut_memoise id' a') hiff (.inr ⟨_, hid⟩) ?_⟩
  cases h.object hid with
  | @promise _ _ p p' hp hp' hc =>
    have hle := ρ.le_extend hiff
    have hnew : (s.memoise id a).promises[id.index]? = some { p with memo := some a } := by
      simp [Store.memoise, Array.getElem?_modify, hp]
    have hnew' : (s'.memoise id' a').promises[id'.index]? = some { p' with memo := some a' } := by
      simp [Store.memoise, Array.getElem?_modify, hp']
    exact .promise hnew hnew'
      ⟨hc.expression.mono hle, hle.object hc.env, .some (ha.mono hle)⟩

end Coincide

/-! ## Runs -/

/-- Two outcomes of the same kind, with what `P` asks of the results, after runs from `ρ` and a
second store `s'`. -/
inductive Ended (ρ : Renaming fixed) (s' : Store) {α β : Type} (P : Renaming fixed → α → β → Prop) :
    EStateM.Result Stop Store α → EStateM.Result Stop Store β → Prop
  | ok {σ : Renaming fixed} {a : α} {b : β} {t t' : Store} : Further ρ s' σ t t' → P σ a b →
      Ended ρ s' P (.ok a t) (.ok b t')
  | error {σ : Renaming fixed} {e e' : Stop} {t t' : Store} : Further ρ s' σ t t' →
      e.Rel (Renamed σ) e' → Ended ρ s' P (.error e t) (.error e' t')

theorem Ended.after {α β : Type} {P : Renaming fixed → α → β → Prop}
    {r : EStateM.Result Stop Store α} {r' : EStateM.Result Stop Store β}
    (hon : Further ρ s' σ t t') (h : Ended σ t' P r r') : Ended ρ s' P r r' := by
  cases h with
  | ok hon' hP => exact .ok (hon.trans hon') hP
  | error hon' he => exact .error (hon.trans hon') he

/-- Computations that do the same in stores that coincide. -/
def Tandem (ρ : Renaming fixed) {α β : Type} (P : Renaming fixed → α → β → Prop) (x : EvalM α)
    (y : EvalM β) : Prop :=
  ∀ s s', Coincide ρ s s' → Ended ρ s' P (x s) (y s')

namespace Tandem
variable {α β α' β' : Type} {P : Renaming fixed → α → β → Prop}
  {P' : Renaming fixed → α' → β' → Prop} {x : EvalM α} {y : EvalM β}

protected theorem pure {a : α} {b : β} (h : P ρ a b) : Tandem ρ P (pure a) (pure b) :=
  fun _ _ hm => .ok hm.refl h

protected theorem bind {f : α → EvalM α'} {g : β → EvalM β'} (hx : Tandem ρ P x y)
    (hf : ∀ σ a b, ρ.Le σ → P σ a b → Tandem σ P' (f a) (g b)) :
    Tandem ρ P' (x >>= f) (y >>= g) := by
  intro s s' hm
  have hend := hx s s' hm
  cases hxs : x s <;> cases hys : y s' <;> rw [hxs, hys] at hend <;> cases hend
  · next σ hP hon =>
    rw [EvalM.bind_ok hxs, EvalM.bind_ok hys]
    exact .after hon (hf σ _ _ hon.le hP _ _ hon.coincide)
  · next σ he hon =>
    rw [EvalM.bind_error hxs, EvalM.bind_error hys]
    exact .error hon he

/-- Operations on the store that always succeed. -/
theorem of_ok (h : ∀ s s', Coincide ρ s s' → ∃ a b t t' σ, x s = .ok a t ∧ y s' = .ok b t' ∧
    Further ρ s' σ t t' ∧ P σ a b) : Tandem ρ P x y := by
  intro s s' hm
  obtain ⟨a, b, t, t', σ, hx, hy, hon, hP⟩ := h s s' hm
  rw [hx, hy]
  exact .ok hon hP

theorem render (d : Nat) {v v' : Value} (hv : Renamed ρ v v') :
    Tandem ρ (fun _ text text' => (Likeness.renaming fixed).verbatim → text = text')
      (EvalM.render d v) (EvalM.render d v') := by
  intro s s' hm
  simp only [EvalM.render, hm.reveals.shown.render d hv]
  cases s'.render d v' with
  | ok text => exact .ok hm.refl fun _ => rfl
  | error why => exact .error hm.refl why.stop_rel

theorem raise (d : Nat) {f f' : Fault} (hf : f.Rel (Renamed ρ) f') :
    Tandem ρ P (EvalM.raise d f) (EvalM.raise d f') := by
  intro s s' hm
  simp only [EvalM.raise, hf.message (hm.reveals.worded d)]
  cases f'.message s' d with
  | ok text => exact .error hm.refl (.raised text hf)
  | error why => exact .error hm.refl why.stop_rel

theorem note (m : Machine) (source : Source) (severity : Severity) (text text' : String) :
    Tandem ρ (fun _ _ _ => True) (m.note source severity text) (m.note source severity text') :=
  of_ok fun _ _ hm => ⟨_, _, _, _, _, rfl, rfl,
    hm.stay (Store.sameObjects_note _ _ _) (Store.sameObjects_note _ _ _), trivial⟩

theorem lookup (name : String) {env env' : EnvId} (he : ρ.object (.env env) (.env env')) :
    Tandem ρ (fun σ => Option.Rel (Renamed σ)) (EvalM.read (·.lookup env name))
      (EvalM.read (·.lookup env' name)) :=
  of_ok fun _ _ hm => ⟨_, _, _, _, _, rfl, rfl, hm.refl, hm.lookup name he⟩

theorem newMark : Tandem ρ Renaming.mark (EvalM.act Store.newMark) (EvalM.act Store.newMark) := by
  refine of_ok fun _ _ hm => ?_
  obtain ⟨σ, hon, hmark⟩ := hm.newMark
  exact ⟨_, _, _, _, σ, rfl, rfl, hon, hmark⟩

theorem newPromise {e e' : Value} (he : Renamed ρ e e') {env env' : EnvId}
    (henv : ρ.object (.env env) (.env env')) :
    Tandem ρ (fun σ id id' => Renamed σ (.promise id) (.promise id'))
      (EvalM.act (·.newPromise e env)) (EvalM.act (·.newPromise e' env')) := by
  refine of_ok fun _ _ hm => ?_
  obtain ⟨σ, hon, hid⟩ := hm.newPromise he henv
  exact ⟨_, _, _, _, σ, rfl, rfl, hon, .promise hid⟩

theorem newChild {env env' : EnvId} (he : ρ.object (.env env) (.env env'))
    {contents contents' : Bindings Value} (hc : contents.Rel (Renamed ρ) contents') :
    Tandem ρ (fun σ e e' => σ.object (.env e) (.env e')) (EvalM.act (·.newChild env contents))
      (EvalM.act (·.newChild env' contents')) := by
  refine of_ok fun _ _ hm => ?_
  obtain ⟨σ, hon, he⟩ := hm.newChild he hc
  exact ⟨_, _, _, _, σ, rfl, rfl, hon, he⟩

theorem newPair {v v' r r' : Value} (hv : Renamed ρ v v') (hr : Renamed ρ r r') :
    Tandem ρ Renamed (EvalM.act (·.newPair v r)) (EvalM.act (·.newPair v' r')) := by
  refine of_ok fun _ _ hm => ?_
  obtain ⟨σ, hon, hmark⟩ := hm.newMark
  exact ⟨_, _, _, _, σ, rfl, rfl, hon, .pair hmark (hv.mono hon.le) (hr.mono hon.le)⟩

theorem enter (m : Machine) {c c' : Closure} {params params' : Value}
    (hc : Renamed ρ c.toValue c'.toValue) (hp : Renamed ρ params params') :
    Tandem ρ (fun σ r r' => σ.object (.env r.1) (.env r'.1) ∧ r.2 = r'.2) (m.enter c params)
      (m.enter c' params') := by
  obtain ⟨mark, names, body, env, isLazy⟩ := c
  obtain ⟨mark', names', body', env', isLazy'⟩ := c'
  cases hc with
  | closure _ _ _ _ henv =>
    obtain ⟨hframe, hmissing, hremaining⟩ := matchParams_rel (fun _ _ hv => hv.shape) .nil names hp
      (Bindings.Rel.empty (R := Renamed ρ))
    have hexact : (matchParams names params ∅).exact = (matchParams names params' ∅).exact := by
      unfold Matching.exact
      rw [hmissing, hremaining.shape.isNil_eq]
    refine (newChild henv hframe).bind fun σ e e' _ he => ?_
    dsimp only
    rw [hexact]
    split
    · exact (note m _ _ _ _).bind fun τ _ _ hle _ => .pure ⟨hle.object he, rfl⟩
    · exact .pure ⟨he, rfl⟩

/-- Requests to the store. -/
theorem request (m : Machine) (d : Nat) {self self' : Call → EvalM Answer} {r r' : Request}
    {Q : (Likeness.renaming fixed).World → r.Reply → r'.Reply → Prop} (hr : r ≠ .effects)
    (ha : (Likeness.renaming fixed).StoreAsked ρ r r' Q) :
    Tandem ρ Q (m.serveWith d self r) (m.serveWith d self' r') := by
  cases ha with
  | chain he => exact of_ok fun _ _ hm => ⟨_, _, _, _, _, rfl, rfl, hm.refl, hm.chain he⟩
  | lookup name he => exact lookup name he
  | bind name he hv =>
    refine of_ok fun _ _ hm => ?_
    obtain ⟨σ, hon⟩ := hm.bind he name hv
    exact ⟨_, _, _, _, σ, rfl, rfl, hon, trivial⟩
  | newChild he => exact newChild he .empty
  | newMapping =>
    refine of_ok fun _ _ hm => ?_
    obtain ⟨σ, hon, hid⟩ := hm.newMapping .empty
    exact ⟨_, _, _, _, σ, rfl, rfl, hon, .mapping hid⟩
  | read name hid =>
    cases hid with
    | mapping hid =>
      exact of_ok fun _ _ hm => ⟨_, _, _, _, _, rfl, rfl, hm.refl, (hm.mapping hid).find? name⟩
  | write name hid hv =>
    cases hid with
    | mapping hid =>
      refine of_ok fun _ _ hm => ?_
      obtain ⟨σ, hon⟩ := hm.write hid name hv
      exact ⟨_, _, _, _, σ, rfl, rfl, hon, trivial⟩
  | newPromise he henv => exact newPromise he henv
  | newMark => exact newMark
  | emit hv => exact of_ok fun _ _ hm => ⟨_, _, _, _, _, rfl, rfl,
      hm.stay (Store.sameObjects_emit _ _) (Store.sameObjects_emit _ _), trivial⟩
  | effects => exact absurd rfl hr
  | render hv => exact render d hv

/-- The second side as a family of one. -/
def Beside {α β : Type} (ρ : Renaming fixed) (P : Renaming fixed → α → β → Prop) (x : EvalM α)
    (y : Unit → EvalM β) : Prop :=
  Tandem ρ P x (y ())

/-- Computations in tandem follow the law of evaluation. -/
theorem sideBySide (m : Machine) (d : Nat) (hlib : m.library.Nominal fixed) :
    SideBySide (.renaming fixed) m (fun _ => m) d (fun _ => d) Beside where
  pure hp := .pure hp
  bind hx hf := hx.bind hf
  render hv := render d hv
  note source severity _ _ _ := note m source severity _ _
  lookup name he := lookup name he
  newPair hv hr := newPair hv hr
  newPromise he henv := newPromise he henv
  enter hc hp := enter m hc hp
  report {ρ p p' a a'} _ ha := by
    unfold Machine.reportFailure
    rw [← ha.ok]
    split
    · exact .pure trivial
    · exact note m _ _ _ _
  raise hf := raise d hf
  request hr ha := request m d hr ha
  library _ := rfl
  conduct hn hp he := by
    cases hn with
    | native routine name isLazy _ => exact hlib routine _ _ _ _ _ hp he

/-- Forcing a promise once, if evaluations go in tandem. -/
theorem forceOnceWith {self : Call → EvalM Answer}
    (hs : ∀ ρ c c', (Likeness.renaming fixed).Calls ρ c c' →
      Tandem ρ (Likeness.renaming fixed).Answers (self c) (self c'))
    {id id' : PromiseId} (hid : ρ.object (.promise id) (.promise id')) :
    Tandem ρ (Likeness.renaming fixed).Answers (Machine.forceOnceWith self id)
      (Machine.forceOnceWith self id') := by
  have hread : Tandem ρ Promise.Renamed (EvalM.read (·.promise id)) (EvalM.read (·.promise id')) :=
    of_ok fun _ _ hm => ⟨_, _, _, _, _, rfl, rfl, hm.refl, hm.promise hid⟩
  refine hread.bind fun σ p p' hle hp => ?_
  obtain ⟨e, env, memo⟩ := p
  obtain ⟨e', env', memo'⟩ := p'
  cases hp.memo with
  | some ha => exact .pure ha
  | none =>
    refine (hs σ _ _ (.evaluate hp.expression hp.env)).bind fun τ a a' hle' ha => ?_
    have hstore : Tandem τ (fun _ _ _ => True) (EvalM.change (·.memoise id a))
        (EvalM.change (·.memoise id' a')) := by
      refine of_ok fun _ _ hm => ?_
      obtain ⟨υ, hon⟩ := hm.memoise (hle'.object (hle.object hid)) ha
      exact ⟨_, _, _, _, υ, rfl, rfl, hon, trivial⟩
    exact hstore.bind fun υ _ _ hle'' _ => .pure (ha.mono hle'')

/-- Forcing a value, if evaluations go in tandem. -/
theorem force {m : Machine} {d : Nat} (hlib : m.library.Nominal fixed)
    (hs : ∀ ρ c c', (Likeness.renaming fixed).Calls ρ c c' →
      Tandem ρ (Likeness.renaming fixed).Answers (m.perform d c) (m.perform d c'))
    {v v' : Value} (hv : Renamed ρ v v') :
    Tandem ρ (Likeness.renaming fixed).Answers (m.force d v) (m.force d v') := by
  have hself : ∀ ρ c c', (Likeness.renaming fixed).Calls ρ c c' →
      Beside ρ (Likeness.renaming fixed).Answers (m.perform d c) fun _ => m.perform d c' := hs
  have hend : ∀ ρ, Beside (α := Answer) (β := Answer) ρ (Likeness.renaming fixed).Answers
      (throw .unfinished) fun _ => throw .unfinished := fun _ s s' hm => .error hm.refl .unfinished
  exact (sideBySide m d hlib).forceWith hself hend m.links hv

end Tandem

/-- **Every call does the same in stores that coincide.** -/
theorem tandem_perform {m : Machine} (hlib : m.library.Nominal fixed) (depth : Nat) {c c' : Call}
    (hc : (Likeness.renaming fixed).Calls ρ c c') :
    Tandem ρ (Likeness.renaming fixed).Answers (m.perform depth c) (m.perform depth c') := by
  induction depth generalizing ρ c c' with
  | zero => exact fun s s' hm => .error hm.refl .tooDeep
  | succ depth ih =>
    have hself : ∀ ρ c c', (Likeness.renaming fixed).Calls ρ c c' →
        Tandem.Beside ρ (Likeness.renaming fixed).Answers (m.perform depth c)
          fun _ => m.perform depth c' := fun ρ c c' hc => ih hc
    refine (Tandem.sideBySide m depth hlib).step hself (fun ρ v v' hv => ?_)
      (fun ρ id id' hid => ?_) hc
    · exact Tandem.force hlib hself hv
    · cases hid with
      | promise hid => exact Tandem.forceOnceWith hself hid

section Machine
variable {m : Machine} (hlib : m.library.Nominal fixed) (depth : Nat)

include hlib

theorem tandem_force {v v' : Value} (hv : Renamed ρ v v') :
    Tandem ρ (Likeness.renaming fixed).Answers (m.force depth v) (m.force depth v') :=
  Tandem.force hlib (fun _ _ _ hc => tandem_perform hlib depth hc) hv

/-- Scripts that are alike do the same, be they of natives or of hosts. -/
theorem tandem_script {α β : Type} {P : Renaming fixed → α → β → Prop} {x : Script α} {y : Script β}
    (hx : (Likeness.renaming fixed).Scripts P ρ x y) :
    Tandem ρ P (m.runWith depth (m.perform depth) x : EvalM α)
      (m.runWith depth (m.perform depth) y) := by
  have hself : ∀ ρ c c', (Likeness.renaming fixed).Calls ρ c c' →
      Tandem.Beside ρ (Likeness.renaming fixed).Answers (m.perform depth c)
        fun _ => m.perform depth c' := fun ρ c c' hc => tandem_perform hlib depth hc
  exact (Tandem.sideBySide m depth hlib).runWith hself
    (fun ρ v v' hv => tandem_force hlib depth hv) hx

end Machine

end LispCore
