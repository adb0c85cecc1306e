import LispCore.Proofs.Memo
import LispCore.Proofs.Pairing

/-! # Stores that behave alike

Two runs of one program from the same store end in stores that need not be equal: one
may have made more objects than the other, and promises may have stored their answers
in one of them only. Objects of the two are alike if programs that write nothing cannot
tell them apart. A pairing is consistent if the contents of corresponding objects
correspond again, what promises have stored apart (`Consistent`), and objects are alike
if some consistent pairing says so (`alike`).

So `alike` is itself consistent and the largest such pairing, which makes it symmetric
and transitive, and new objects are alike as soon as their contents are. It is kept
when the stores grow (`alike_mono`): an object is never changed, only new ones appear.
Marks below a bound correspond to themselves, those from the bound on to each other. -/
namespace LispCore

namespace Store

/-! ## Growing -/

/-- The second store has all that the first has, what promises have stored apart. -/
structure Grown (s t : Store) : Prop where
  mapping : ∀ id : MappingId, id.index < s.mappings.size →
    id.index < t.mappings.size ∧ t.mapping id = s.mapping id
  environment? : ∀ env e, s.environment? env = some e → t.environment? env = some e
  promise : ∀ id : PromiseId, id.index < s.promises.size → id.index < t.promises.size ∧
    (t.promise id).expression = (s.promise id).expression ∧ (t.promise id).env = (s.promise id).env
  marks : s.marks ≤ t.marks

/-- The second store has all that the first has, and no promise has stored an answer. -/
structure Enlarged (s t : Store) : Prop extends Grown s t where
  memo : ∀ id a, t.memo id = some a → s.memo id = some a

namespace Grown
variable {s t u : Store}

theorem refl (s : Store) : s.Grown s where
  mapping _ h := ⟨h, rfl⟩
  environment? _ _ h := h
  promise _ h := ⟨h, rfl, rfl⟩
  marks := Nat.le_refl _

theorem trans (h : s.Grown t) (h' : t.Grown u) : s.Grown u where
  mapping id hid := by
    obtain ⟨ht, heq⟩ := h.mapping id hid
    obtain ⟨hu, heq'⟩ := h'.mapping id ht
    exact ⟨hu, heq'.trans heq⟩
  environment? env e he := h'.environment? env e (h.environment? env e he)
  promise id hid := by
    obtain ⟨ht, hexpression, henv⟩ := h.promise id hid
    obtain ⟨hu, hexpression', henv'⟩ := h'.promise id ht
    exact ⟨hu, hexpression'.trans hexpression, henv'.trans henv⟩
  marks := Nat.le_trans h.marks h'.marks

theorem memoise (s : Store) (id : PromiseId) (a : Answer) : s.Grown (s.memoise id a) where
  mapping _ h := ⟨h, rfl⟩
  environment? _ _ h := h
  promise other h := by
    rw [promise_memoise]
    refine ⟨by simpa [Store.memoise] using h, ?_⟩
    split <;> exact ⟨rfl, rfl⟩
  marks := Nat.le_refl _

end Grown

namespace Enlarged
variable {s t : Store}

theorem refl (s : Store) : s.Enlarged s := ⟨.refl s, fun _ _ h => h⟩

/-- Marks, records and effects are no objects. -/
theorem of_objects (hm : t.mappings = s.mappings) (he : t.environments = s.environments)
    (hp : t.promises = s.promises) (hn : s.marks ≤ t.marks) : s.Enlarged t where
  mapping id h := by
    rw [hm]
    exact ⟨h, by simp only [Store.mapping, hm]⟩
  environment? env e h := by
    rwa [Store.environment?, he]
  promise id h := by
    rw [hp]
    exact ⟨h, by simp only [Store.promise, hp], by simp only [Store.promise, hp]⟩
  marks := hn
  memo id a h := by rwa [Store.memo, hp] at h

theorem note (s : Store) (level : Int) (r : Record) : s.Enlarged (s.note level r) := by
  unfold Store.note
  split
  · exact of_objects rfl rfl rfl (Nat.le_refl _)
  · exact .refl s

theorem newMark (s : Store) : s.Enlarged s.newMark.2 :=
  of_objects rfl rfl rfl (Nat.le_succ _)

theorem emit (s : Store) (v : Value) : s.Enlarged (s.emit v) :=
  of_objects rfl rfl rfl (Nat.le_refl _)

theorem newMapping (s : Store) (contents : Bindings Value) :
    s.Enlarged (s.newMapping contents).2 where
  mapping id h := by
    have hne : id ≠ (s.newMapping contents).1 := by
      rintro rfl
      exact Nat.lt_irrefl _ h
    rw [mapping_newMapping, if_neg hne]
    refine ⟨?_, rfl⟩
    simp only [Store.newMapping, Array.size_push]
    omega
  environment? _ _ h := h
  promise _ h := ⟨h, rfl, rfl⟩
  marks := Nat.le_refl _
  memo _ _ h := h

theorem newEnvironment (s : Store) (parent : Option EnvId) (contents : Bindings Value) :
    s.Enlarged (s.newEnvironment parent contents).2 where
  mapping := (newMapping s contents).mapping
  environment? env e h := by
    have hne : env ≠ (s.newEnvironment parent contents).1 := by
      rintro rfl
      simp [Store.environment?, Store.newEnvironment, Store.newMapping] at h
    rw [environment?_newEnvironment, if_neg hne, h]
  promise _ h := ⟨h, rfl, rfl⟩
  marks := Nat.le_refl _
  memo _ _ h := h

theorem newPromise (s : Store) (e : Value) (env : EnvId) :
    s.Enlarged (s.newPromise e env).2 where
  mapping _ h := ⟨h, rfl⟩
  environment? _ _ h := h
  promise id h := by
    have hne : id ≠ (s.newPromise e env).1 := by
      rintro rfl
      exact Nat.lt_irrefl _ h
    rw [promise_newPromise, if_neg hne]
    refine ⟨?_, rfl, rfl⟩
    simp only [Store.newPromise, Array.size_push]
    omega
  marks := Nat.le_refl _
  memo id a h := by rwa [memo_newPromise] at h

end Enlarged

end Store

open Store (Grown Enlarged)

/-! ## One look into objects -/

section Contents
variable (σ : Pairing) (s s' : Store)

/-- Mappings whose contents correspond. -/
structure MappingsAlike (i j : MappingId) : Prop where
  left : i.index < s.mappings.size
  right : j.index < s'.mappings.size
  contents : (s.mapping i).Rel (Paired σ) (s'.mapping j)

/-- Environments whose frames and parents correspond. Parents are older. -/
inductive EnvsAlike (i j : EnvId) : Prop
  | mk {e e' : Environment} : s.environment? i = some e → s'.environment? j = some e' →
      σ.mapping e.frame e'.frame → Option.Rel σ.env e.parent e'.parent →
      (∀ p ∈ e.parent, p.index < i.index) → (∀ p ∈ e'.parent, p.index < j.index) → EnvsAlike i j

/-- Promises whose expressions and environments correspond. -/
structure PromisesAlike (i j : PromiseId) : Prop where
  left : i.index < s.promises.size
  right : j.index < s'.promises.size
  expression : Paired σ (s.promise i).expression (s'.promise j).expression
  env : σ.env (s.promise i).env (s'.promise j).env

/-- The objects whose contents correspond, and the marks that do with respect to a bound. -/
def Pairing.unfolded (b : Nat) : Pairing where
  mapping := MappingsAlike σ s s'
  env := EnvsAlike σ s s'
  promise := PromisesAlike σ s s'
  mark := (Pairing.marks b).mark
  mark_refl := (Pairing.marks b).mark_refl

end Contents

theorem optionRel_trans {α β γ : Type} {R : α → β → Prop} {S : β → γ → Prop} {x : Option α}
    {y : Option β} {z : Option γ} (h : Option.Rel R x y) (h' : Option.Rel S y z) :
    Option.Rel (fun a c => ∃ b, R a b ∧ S b c) x z := by
  cases h with
  | none => cases h'; exact .none
  | some hab =>
    cases h' with
    | some hbc => exact .some ⟨_, hab, hbc⟩

theorem optionRel_symm {α β : Type} {R : α → β → Prop} {x : Option α} {y : Option β}
    (h : Option.Rel R x y) : Option.Rel (fun b a => R a b) y x := by
  cases h with
  | none => exact .none
  | some hab => exact .some hab

section Unfolded
variable {σ τ : Pairing} {s s' s'' t t' : Store} {b : Nat}

theorem unfolded_mono (h : σ.Le τ) (hs : s.Grown t) (hs' : s'.Grown t') :
    (σ.unfolded s s' b).Le (τ.unfolded t t' b) where
  mapping i j hij := by
    obtain ⟨hi, heq⟩ := hs.mapping i hij.left
    obtain ⟨hj, heq'⟩ := hs'.mapping j hij.right
    refine ⟨hi, hj, ?_⟩
    rw [heq, heq']
    exact hij.contents.mono fun _ _ hv => hv.mono h
  env i j hij := by
    obtain ⟨he, he', hframe, hparent, hold, hold'⟩ := hij
    exact ⟨hs.environment? i _ he, hs'.environment? j _ he', h.mapping _ _ hframe,
      optionRel_mono h.env hparent, hold, hold'⟩
  promise i j hij := by
    obtain ⟨hi, hexpression, henv⟩ := hs.promise i hij.left
    obtain ⟨hj, hexpression', henv'⟩ := hs'.promise j hij.right
    refine ⟨hi, hj, ?_, ?_⟩
    · rw [hexpression, hexpression']
      exact hij.expression.mono h
    · rw [henv, henv']
      exact h.env _ _ hij.env
  mark _ _ hij := hij

theorem unfolded_flip : (σ.unfolded s s' b).flip.Le (σ.flip.unfolded s' s b) where
  mapping _ _ hij := ⟨hij.right, hij.left, hij.contents.flip fun _ _ hv => hv.symm⟩
  env _ _ := by
    rintro ⟨he, he', hframe, hparent, hold, hold'⟩
    exact ⟨he', he, hframe, optionRel_symm hparent, hold', hold⟩
  promise _ _ hij := ⟨hij.right, hij.left, hij.expression.symm, hij.env⟩
  mark := (Pairing.marks_flip b).mark

theorem unfolded_comp :
    ((σ.unfolded s s' b).comp (τ.unfolded s' s'' b)).Le ((σ.comp τ).unfolded s s'' b) where
  mapping _ _ := by
    rintro ⟨j, hij, hjk⟩
    exact ⟨hij.left, hjk.right, hij.contents.comp (fun _ _ _ hv hv' => hv.trans hv') hjk.contents⟩
  env _ _ := by
    rintro ⟨j, ⟨he, he', hframe, hparent, hold, _⟩, ⟨hm, hm', hframe', hparent', _, hold'⟩⟩
    cases Option.some.inj (he'.symm.trans hm)
    exact ⟨he, hm', ⟨_, hframe, hframe'⟩, optionRel_trans hparent hparent', hold, hold'⟩
  promise _ _ := by
    rintro ⟨j, hij, hjk⟩
    exact ⟨hij.left, hjk.right, hij.expression.trans hjk.expression, _, hij.env, hjk.env⟩
  mark _ _ := by
    rintro ⟨j, rfl | hij, rfl | hjk⟩
    · exact .inl rfl
    · exact .inr hjk
    · exact .inr hij
    · exact .inr ⟨hij.1, hjk.2⟩

end Unfolded

/-! ## The largest consistent pairing -/

/-- The contents of corresponding objects correspond. -/
def Consistent (b : Nat) (ρ : Pairing) (s s' : Store) : Prop := ρ.Le (ρ.unfolded s s' b)

/-- The objects that some consistent pairing has correspond. -/
def alike (b : Nat) (s s' : Store) : Pairing where
  mapping i j := ∃ ρ, Consistent b ρ s s' ∧ ρ.mapping i j
  env i j := ∃ ρ, Consistent b ρ s s' ∧ ρ.env i j
  promise i j := ∃ ρ, Consistent b ρ s s' ∧ ρ.promise i j
  mark := (Pairing.marks b).mark
  mark_refl := (Pairing.marks b).mark_refl

section Alike
variable {ρ : Pairing} {s s' s'' t t' : Store} {b : Nat}

theorem Consistent.le_alike (h : Consistent b ρ s s') : ρ.Le (alike b s s') where
  mapping _ _ hij := ⟨ρ, h, hij⟩
  env _ _ hij := ⟨ρ, h, hij⟩
  promise _ _ hij := ⟨ρ, h, hij⟩
  mark := h.mark

theorem consistent_alike (b : Nat) (s s' : Store) : Consistent b (alike b s s') s s' := by
  have hle {ρ : Pairing} (h : Consistent b ρ s s') :
      (ρ.unfolded s s' b).Le ((alike b s s').unfolded s s' b) :=
    unfolded_mono h.le_alike (.refl s) (.refl s')
  constructor
  · rintro i j ⟨ρ, h, hij⟩
    exact (hle h).mapping i j (h.mapping i j hij)
  · rintro i j ⟨ρ, h, hij⟩
    exact (hle h).env i j (h.env i j hij)
  · rintro i j ⟨ρ, h, hij⟩
    exact (hle h).promise i j (h.promise i j hij)
  · exact fun _ _ hij => hij

/-- Objects are alike as soon as their contents are. -/
theorem unfolded_alike_le (b : Nat) (s s' : Store) :
    ((alike b s s').unfolded s s' b).Le (alike b s s') :=
  Consistent.le_alike (unfolded_mono (consistent_alike b s s') (.refl s) (.refl s'))

theorem alike_mono (hs : s.Grown t) (hs' : s'.Grown t') : (alike b s s').Le (alike b t t') := by
  have h : Consistent b (alike b s s') t t' :=
    (consistent_alike b s s').trans (unfolded_mono (.refl _) hs hs')
  exact h.le_alike

theorem alike_flip : (alike b s s').flip.Le (alike b s' s) := by
  have hflip : (alike b s s').flip.Le ((alike b s s').unfolded s s' b).flip :=
    (consistent_alike b s s').flip
  exact Consistent.le_alike (hflip.trans unfolded_flip)

theorem alike_comp : ((alike b s s').comp (alike b s' s'')).Le (alike b s s'') := by
  have hcomp := (consistent_alike b s s').comp (consistent_alike b s' s'')
  exact Consistent.le_alike (hcomp.trans unfolded_comp)

theorem paired_alike_symm {v v' : Value} (h : Paired (alike b s s') v v') :
    Paired (alike b s' s) v' v :=
  h.symm.mono alike_flip

theorem paired_alike_trans {v v' v'' : Value} (h : Paired (alike b s s') v v')
    (h' : Paired (alike b s' s'') v' v'') : Paired (alike b s s'') v v'' :=
  (h.trans h').mono alike_comp

/-! ## Reading -/

theorem alike_mapping {i j : MappingId} (h : (alike b s s').mapping i j) :
    (s.mapping i).Rel (Paired (alike b s s')) (s'.mapping j) :=
  ((consistent_alike b s s').mapping i j h).contents

theorem alike_env {i j : EnvId} (h : (alike b s s').env i j) :
    EnvsAlike (alike b s s') s s' i j :=
  (consistent_alike b s s').env i j h

theorem alike_promise {i j : PromiseId} (h : (alike b s s').promise i j) :
    PromisesAlike (alike b s s') s s' i j :=
  (consistent_alike b s s').promise i j h

theorem alike_linked (i j : EnvId) (h : (alike b s s').env i j) :
    EnvsLinked (alike b s s').env s s' i j := by
  obtain ⟨he, he', _, hparent, hold, hold'⟩ := alike_env h
  refine ⟨_, _, he, he', ?_⟩
  generalize Environment.parent _ = p, Environment.parent _ = p' at hparent hold hold' ⊢
  cases hparent with
  | none => exact .none
  | some hp => exact .some ⟨hp, hold _ rfl, hold' _ rfl⟩

theorem alike_chain {i j : EnvId} (h : (alike b s s').env i j) :
    List.Forall₂ (alike b s s').env (s.chain i) (s'.chain j) :=
  chain_rel alike_linked h

theorem alike_frame {i j : EnvId} (h : (alike b s s').env i j) :
    (s.frame i).Rel (Paired (alike b s s')) (s'.frame j) := by
  obtain ⟨he, he', hframe, _⟩ := alike_env h
  simp only [Store.frame, he, he']
  exact alike_mapping hframe

theorem alike_lookup {i j : EnvId} (h : (alike b s s').env i j) (name : String) :
    Option.Rel (Paired (alike b s s')) (s.lookup i name) (s'.lookup j name) :=
  findSome?_rel (alike_chain h) fun _ _ hij => (alike_frame hij).find? name

/-! ## Making objects -/

/-- A mapping made on either side is alike if its contents were, and stays so. -/
theorem alike_mapping_of (hs : s.Grown t) (hs' : s'.Grown t') {i j : MappingId}
    (hi : i.index < t.mappings.size) (hj : j.index < t'.mappings.size)
    (h : (t.mapping i).Rel (Paired (alike b s s')) (t'.mapping j)) : (alike b t t').mapping i j :=
  (unfolded_alike_le b t t').mapping i j ⟨hi, hj, h.mono fun _ _ hv => hv.mono (alike_mono hs hs')⟩

theorem alike_newMapping {c c' : Bindings Value} (h : c.Rel (Paired (alike b s s')) c') :
    (alike b (s.newMapping c).2 (s'.newMapping c').2).mapping (s.newMapping c).1
      (s'.newMapping c').1 := by
  refine alike_mapping_of (Enlarged.newMapping s c).toGrown (Enlarged.newMapping s' c').toGrown
    (by simp [Store.newMapping]) (by simp [Store.newMapping]) ?_
  rwa [Store.mapping_newMapping, Store.mapping_newMapping, if_pos rfl, if_pos rfl]

theorem alike_newChild {i j : EnvId} {c c' : Bindings Value} (h : (alike b s s').env i j)
    (hc : c.Rel (Paired (alike b s s')) c') :
    (alike b (s.newChild i c).2 (s'.newChild j c').2).env (s.newChild i c).1
      (s'.newChild j c').1 := by
  obtain ⟨he, he', -⟩ := alike_env h
  have hi : i.index < s.environments.size := (Array.getElem?_eq_some_iff.mp he).1
  have hj : j.index < s'.environments.size := (Array.getElem?_eq_some_iff.mp he').1
  unfold Store.newChild
  rw [if_pos hi, if_pos hj]
  have hs := (Enlarged.newEnvironment s (some i) c).toGrown
  have hs' := (Enlarged.newEnvironment s' (some j) c').toGrown
  have hframe : (alike b (s.newEnvironment (some i) c).2 (s'.newEnvironment (some j) c').2).mapping
      (s.newMapping c).1 (s'.newMapping c').1 := by
    refine alike_mapping_of hs hs' (by simp [Store.newMapping, Store.newEnvironment])
      (by simp [Store.newMapping, Store.newEnvironment]) ?_
    show ((s.newMapping c).2.mapping _).Rel (Paired _) ((s'.newMapping c').2.mapping _)
    rwa [Store.mapping_newMapping, Store.mapping_newMapping, if_pos rfl, if_pos rfl]
  have hnew : (s.newEnvironment (some i) c).2.environment? (s.newEnvironment (some i) c).1 =
      some ⟨(s.newMapping c).1, some i⟩ := by
    rw [Store.environment?_newEnvironment, if_pos rfl]
    rfl
  have hnew' : (s'.newEnvironment (some j) c').2.environment? (s'.newEnvironment (some j) c').1 =
      some ⟨(s'.newMapping c').1, some j⟩ := by
    rw [Store.environment?_newEnvironment, if_pos rfl]
    rfl
  refine (unfolded_alike_le b _ _).env _ _
    (.mk hnew hnew' hframe (.some ((alike_mono hs hs').env i j h)) ?_ ?_)
  · rintro p ⟨⟩
    exact hi
  · rintro p ⟨⟩
    exact hj

theorem alike_newPromise {e e' : Value} {i j : EnvId} (he : Paired (alike b s s') e e')
    (h : (alike b s s').env i j) :
    (alike b (s.newPromise e i).2 (s'.newPromise e' j).2).promise (s.newPromise e i).1
      (s'.newPromise e' j).1 := by
  have hle := alike_mono (b := b) (Enlarged.newPromise s e i).toGrown
    (Enlarged.newPromise s' e' j).toGrown
  refine (unfolded_alike_le b _ _).promise _ _ ⟨?_, ?_, ?_, ?_⟩
  · simp [Store.newPromise]
  · simp [Store.newPromise]
  · rw [Store.promise_newPromise, Store.promise_newPromise, if_pos rfl, if_pos rfl]
    exact he.mono hle
  · rw [Store.promise_newPromise, Store.promise_newPromise, if_pos rfl, if_pos rfl]
    exact hle.env i j h

end Alike

/-! ## Stores in which nothing is forced -/

namespace Store

/-- No promise has stored an answer. -/
def Unforced (s : Store) : Prop := ∀ id, s.memo id = none

/-- The objects of a store. -/
def Has (s : Store) : Region := fun o => ¬ s.Beyond o

/-- What the store refers to is in the store, and parents are older. -/
structure Closed (s : Store) : Prop where
  holds : ∀ o o', s.Holds o o' → s.Has o'
  parent : ∀ env outer, s.parent? env = some outer → outer.index < env.index

theorem Unforced.enlarged {s t : Store} (h : s.Unforced) (hst : s.Enlarged t) : t.Unforced := by
  intro id
  cases hm : t.memo id with
  | none => rfl
  | some a =>
    have hsome := hst.memo id a hm
    rw [h id] at hsome
    cases hsome

theorem Unforced.promise_memo {s : Store} (h : s.Unforced) {id : PromiseId}
    (hid : id.index < s.promises.size) : (s.promise id).memo = none := by
  have hm := h id
  have hget : s.promises[id.index]? = some s.promises[id.index] := Array.getElem?_eq_getElem hid
  simp only [Store.memo, hget, Option.bind_some] at hm
  simp only [Store.promise, Array.getD_eq_getD_getElem?, hget, Option.getD_some, hm]

end Store

/-- Where nothing is forced, promises show their expressions, which correspond. -/
theorem presents_alike {b : Nat} {s s' : Store} (hs : s.Unforced) (hs' : s'.Unforced) :
    Presents (alike b s s').toCorrespondence s s' := by
  intro i j hij
  have hp := alike_promise hij
  have hshown : (s.promise i).shown = (s.promise i).expression := by
    simp only [Promise.shown, Promise.forced, hs.promise_memo hp.left, Option.isSome_none,
      Bool.false_eq_true, if_false]
  have hshown' : (s'.promise j).shown = (s'.promise j).expression := by
    simp only [Promise.shown, Promise.forced, hs'.promise_memo hp.right, Option.isSome_none,
      Bool.false_eq_true, if_false]
  rw [hshown, hshown']
  exact hp.expression

/-! ## A store and itself -/

/-- Every object of the store corresponds to itself. -/
def Pairing.itself (s : Store) : Pairing where
  mapping i j := i = j ∧ s.Has (.mapping i)
  env i j := i = j ∧ s.Has (.env i)
  promise i j := i = j ∧ s.Has (.promise i)
  mark i j := i = j
  mark_refl _ := rfl

theorem paired_itself {s : Store} {v : Value} (h : v.Within s.Has) :
    Paired (Pairing.itself s) v v :=
  Corresponds.of_within (Pairing.itself s).mark_refl (fun _ hi => ⟨rfl, hi⟩) (fun _ hi => ⟨rfl, hi⟩)
    (fun _ hi => ⟨rfl, hi⟩) h

theorem consistent_itself {s : Store} (h : s.Closed) (b : Nat) :
    Consistent b (Pairing.itself s) s s where
  mapping := by
    rintro i _ ⟨rfl, hi⟩
    have hlt : i.index < s.mappings.size := Nat.lt_of_not_le hi
    refine ⟨hlt, hlt, List.forall₂_same.mpr fun e he => ⟨rfl, paired_itself fun o ho => ?_⟩⟩
    exact h.holds _ o (.entry he ho)
  env := by
    rintro i _ ⟨rfl, hi⟩
    have hlt : i.index < s.environments.size := Nat.lt_of_not_le hi
    have he : s.environment? i = some s.environments[i.index] := Array.getElem?_eq_getElem hlt
    have hparent {p : EnvId} (hp : p ∈ s.environments[i.index].parent) : s.parent? i = some p := by
      simp only [Store.parent?, he, Option.bind_some]
      exact hp
    refine ⟨he, he, ⟨rfl, h.holds _ _ (.frame he)⟩, ?_, ?_, ?_⟩
    · cases hp : s.environments[i.index].parent with
      | none => exact .none
      | some p => exact .some ⟨rfl, h.holds _ _ (.parent (hparent hp))⟩
    · exact fun p hp => h.parent i p (hparent hp)
    · exact fun p hp => h.parent i p (hparent hp)
  promise := by
    rintro i _ ⟨rfl, hi⟩
    have hlt : i.index < s.promises.size := Nat.lt_of_not_le hi
    have hget : s.promises[i.index]? = some (s.promise i) := by
      simp [Store.promise, Array.getD_eq_getD_getElem?, hlt]
    refine ⟨hlt, hlt, paired_itself fun o ho => ?_, rfl, h.holds _ _ (.captured hget)⟩
    exact h.holds _ o (.expression hget ho)
  mark _ _ hij := .inl hij

/-- Values and environments of a closed store are alike to themselves. -/
theorem itself_le_alike {s : Store} (h : s.Closed) (b : Nat) :
    (Pairing.itself s).Le (alike b s s) :=
  (consistent_itself h b).le_alike

end LispCore
