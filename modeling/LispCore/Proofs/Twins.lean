import LispCore.Proofs.BigStep
import LispCore.Proofs.Memo
import LispCore.Proofs.Scope
import Mathlib.Data.List.Forall2

/-! # Stores that differ in the expression of one promise

Two stores are twins if they are the same up to the expression of a promise that has no
answer in either, and up to places of the journal that quote this promise (`Twins`).
What evaluation does to one of them it can do to the other, and they stay twins, as long
as the promise is not forced. What evaluation looks up is the same in both. Texts differ
where they quote the promise (`Retold`), and the second store may lack a text that the
first one has, if the second expression has none (`Twins.render`). -/
namespace LispCore

/-! ## Texts that quote a promise -/

/-- A text of a value, in some store. -/
def Value.HasText (v : Value) (text : String) : Prop := ∃ s, Shows s v text

/-- What is written for a promise that shows `text`. -/
def quotedPromise (text : String) : String := "(lazy: " ++ text ++ ")"

/-- Two texts that are the same up to places where one quotes a promise of `e` and the
other a promise of `e'`. -/
inductive Retold (e e' : Value) : String → String → Prop
  | same (text : String) : Retold e e' text text
  | quoted {text text' : String} : e.HasText text → e'.HasText text' →
      Retold e e' (quotedPromise text) (quotedPromise text')
  | append {text text' more more' : String} : Retold e e' text text' → Retold e e' more more' →
      Retold e e' (text ++ more) (text' ++ more')

/-- Records of which the second may quote `e'` where the first quotes `e`. -/
structure Record.Retold (e e' : Value) (r r' : Record) : Prop where
  source : r'.source = r.source
  severity : r'.severity = r.severity
  text : LispCore.Retold e e' r.text r'.text

theorem Record.Retold.refl {e e' : Value} (r : Record) : r.Retold e e' r := ⟨rfl, rfl, .same _⟩

/-- What is written on one side is written on the other, or cannot be for a reason in `C`. -/
def Rewritten (C : Unwritable → Prop) {α : Type} (P : α → α → Prop) (x y : Written α) : Prop :=
  ∀ a, x = .ok a → (∃ b, y = .ok b ∧ P a b) ∨ ∃ why, y = .error why ∧ C why

namespace Rewritten
variable {C : Unwritable → Prop} {α β : Type} {P : α → α → Prop} {Q : β → β → Prop}

theorem ok {a b : α} (h : P a b) : Rewritten C P (.ok a) (.ok b) := by
  intro c hc
  cases hc
  exact .inl ⟨b, rfl, h⟩

theorem refl (hP : ∀ a, P a a) (x : Written α) : Rewritten C P x x :=
  fun a ha => .inl ⟨a, ha, hP a⟩

theorem bind {x y : Written α} {f g : α → Written β} (h : Rewritten C P x y)
    (hf : ∀ a b, P a b → Rewritten C Q (f a) (g b)) : Rewritten C Q (x >>= f) (y >>= g) := by
  intro c hc
  cases x with
  | error why => cases hc
  | ok a =>
    rcases h a rfl with ⟨b, rfl, hP⟩ | ⟨why, rfl, hwhy⟩
    · exact hf a b hP c hc
    · exact .inr ⟨why, rfl, hwhy⟩

theorem map {x y : Written α} {f g : α → β} (h : Rewritten C P x y)
    (hf : ∀ a b, P a b → Q (f a) (g b)) : Rewritten C Q (x.map f) (y.map g) := by
  intro c hc
  cases x with
  | error why => cases hc
  | ok a =>
    cases hc
    rcases h a rfl with ⟨b, rfl, hP⟩ | ⟨why, rfl, hwhy⟩
    · exact .inl ⟨g b, rfl, hf a b hP⟩
    · exact .inr ⟨why, rfl, hwhy⟩

end Rewritten

section Texts
variable {e e' : Value} {C : Unwritable → Prop}

theorem Retold.place {text text' : String} (pos : Value.Position) (h : Retold e e' text text') :
    Retold e e' (pos.place text) (pos.place text') := by
  cases pos with
  | alone => exact h
  | tail => exact ((Retold.same ". ").append h).append (.same ")")

/-- Texts are retold if those of parts are and what promises show is. -/
theorem renderWith_retold {i i' : Value.Position → Value → Written String}
    {o o' : PromiseId → Written String}
    (hi : ∀ pos v, Rewritten C (Retold e e') (i pos v) (i' pos v))
    (ho : ∀ id, Rewritten C (Retold e e') ((o id).map quotedPromise) ((o' id).map quotedPromise))
    (pos : Value.Position) (v : Value) :
    Rewritten C (Retold e e') (Value.renderWith i o pos v) (Value.renderWith i' o' pos v) := by
  cases v with
  | pair _ first rest =>
    cases pos with
    | alone =>
      refine (hi _ first).bind fun head head' hhead => (hi _ rest).bind fun tail tail' htail => .ok ?_
      exact (((Retold.same "(").append hhead).append (.same " ")).append htail
    | tail =>
      refine (hi _ first).bind fun head head' hhead => (hi _ rest).bind fun tail tail' htail => .ok ?_
      exact (hhead.append (.same " ")).append htail
  | promise id =>
    have hmap (x : Written String) : x.map (fun text => pos.place ("(lazy: " ++ text ++ ")")) =
        (x.map quotedPromise).map pos.place := by
      cases x <;> rfl
    have hplaced := (ho id).map fun _ _ ht => ht.place pos
    cases pos <;> simp only [Value.renderWith, hmap] <;> exact hplaced
  | _ => cases pos <;> exact .refl .same _

end Texts

/-! ## Stores that differ in one expression -/

namespace Store

/-- The store with `e'` as the expression of a promise, and with another journal. -/
def retell (s : Store) (p : PromiseId) (e' : Value) (records : Array Record) : Store :=
  { s with
    promises := s.promises.modify p.index fun q => { q with expression := e' }
    records := records }

variable {s : Store} {p : PromiseId} {e' : Value} {records : Array Record}

theorem promise_retell (id : PromiseId) :
    (s.retell p e' records).promise id =
      if p = id ∧ p.index < s.promises.size then { s.promise id with expression := e' }
      else s.promise id := by
  obtain ⟨i⟩ := p
  obtain ⟨j⟩ := id
  simp only [promise, retell, Array.getD_eq_getD_getElem?, Array.getElem?_modify,
    PromiseId.mk.injEq]
  by_cases h : i = j
  · subst h
    by_cases hi : i < s.promises.size <;> simp [hi]
  · simp [h]

theorem newPromise_retell (hp : p.index < s.promises.size) (e : Value) (env : EnvId) :
    (s.retell p e' records).newPromise e env =
      ((s.newPromise e env).1, (s.newPromise e env).2.retell p e' records) := by
  have hpush :
      (s.promises.modify p.index fun q => { q with expression := e' }).push ⟨e, env, none⟩ =
      (s.promises.push ⟨e, env, none⟩).modify p.index fun q => { q with expression := e' } := by
    apply Array.ext_getElem?
    intro i
    grind
  simp [newPromise, retell, hpush]

theorem memoise_retell {id : PromiseId} (hid : id ≠ p) (a : Answer) :
    (s.retell p e' records).memoise id a = (s.memoise id a).retell p e' records := by
  have hne : id.index ≠ p.index := fun h => hid (congrArg PromiseId.mk h)
  have hmodify : (s.promises.modify p.index fun q => { q with expression := e' }).modify id.index
        (fun q => { q with memo := some a }) =
      (s.promises.modify id.index fun q => { q with memo := some a }).modify p.index
        fun q => { q with expression := e' } := by
    apply Array.ext_getElem?
    intro i
    grind
  simp [memoise, retell, hmodify]

end Store

/-- Two stores that are the same up to the expression of a promise, which is `e` in one
and `e'` in the other and has not been evaluated in either, and up to places of the
journal that quote it. -/
structure Twins (p : PromiseId) (e e' : Value) (s s' : Store) : Prop where
  expression : (s.promise p).expression = e
  waiting : (s.promise p).memo = none
  told : ∃ records, s' = s.retell p e' records ∧
    List.Forall₂ (Record.Retold e e') s.records.toList records.toList

namespace Twins
variable {p : PromiseId} {e e' : Value} {s s' : Store}

theorem promise_of_ne (h : Twins p e e' s s') {id : PromiseId} (hid : id ≠ p) :
    s'.promise id = s.promise id := by
  obtain ⟨_, _, records, rfl, _⟩ := h
  rw [Store.promise_retell, if_neg fun hc => hid hc.1.symm]

/-- What stands for the promise in texts. -/
theorem shown (h : Twins p e e' s s') :
    (s.promise p).shown = e ∧ (s'.promise p).shown = e' := by
  obtain ⟨rfl, hwaiting, records, rfl, _⟩ := h
  have hlt := Store.lt_of_promise_memo hwaiting
  rw [Store.promise_retell, if_pos ⟨rfl, hlt⟩]
  simp [Promise.shown, Promise.forced, hwaiting]

/-- Both stores have the same texts up to quotations of the promise, unless the second
expression has no text. -/
theorem renderAt (h : Twins p e e' s s') (depth : Nat) (pos : Value.Position) (v : Value) :
    Rewritten (fun why => ∃ depth, s'.render depth e' = .error why) (Retold e e')
      (s.renderAt depth pos v) (s'.renderAt depth pos v) := by
  induction depth generalizing pos v with
  | zero => exact renderWith_retold (fun _ _ => .refl .same _) (fun _ => .refl .same _) pos v
  | succ depth ih =>
    refine renderWith_retold ih (fun id => ?_) pos v
    by_cases hid : id = p
    · rw [hid, h.shown.1, h.shown.2]
      intro text htext
      cases he : s.renderAt depth .alone e with
      | error why =>
        rw [he] at htext
        cases htext
      | ok quote =>
        rw [he] at htext
        cases htext
        cases he' : s'.renderAt depth .alone e' with
        | error why => exact .inr ⟨why, rfl, depth, he'⟩
        | ok quote' => exact .inl ⟨_, rfl, .quoted ⟨s, depth, he⟩ ⟨s', depth, he'⟩⟩
    · rw [h.promise_of_ne hid]
      exact (ih .alone _).map fun _ _ ht => ((Retold.same "(lazy: ").append ht).append (.same ")")

theorem render (h : Twins p e e' s s') (depth : Nat) (v : Value) :
    Rewritten (fun why => ∃ depth, s'.render depth e' = .error why) (Retold e e')
      (s.render depth v) (s'.render depth v) :=
  h.renderAt depth .alone v

/-! What evaluation does to the store keeps twins twins. -/

/-- Changes of anything else than promises and the journal. -/
theorem keep (h : Twins p e e' s s') {t t' : Store} (hpromises : t.promises = s.promises)
    (hrecords : t.records = s.records)
    (ht : ∀ records, s' = s.retell p e' records → t' = t.retell p e' records) :
    Twins p e e' t t' := by
  obtain ⟨hexpression, hwaiting, records, hs', hall⟩ := h
  have hpromise : t.promise p = s.promise p := by simp only [Store.promise, hpromises]
  exact ⟨hpromise ▸ hexpression, hpromise ▸ hwaiting, records, ht records hs', hrecords ▸ hall⟩

theorem note (h : Twins p e e' s s') (level : Int) {r r' : Record} (hr : r.Retold e e' r') :
    Twins p e e' (s.note level r) (s'.note level r') := by
  obtain ⟨hexpression, hwaiting, records, rfl, hall⟩ := h
  have hkept : r'.kept level = r.kept level := by simp only [Record.kept, hr.severity]
  unfold Store.note
  rw [hkept]
  split
  · refine ⟨hexpression, hwaiting, records.push r', rfl, ?_⟩
    simpa using List.rel_append hall (List.Forall₂.cons hr .nil)
  · exact ⟨hexpression, hwaiting, records, rfl, hall⟩

theorem newMark (h : Twins p e e' s s') : Twins p e e' s.newMark.2 s'.newMark.2 :=
  h.keep rfl rfl fun _ hs => by rw [hs]; rfl

theorem newMapping (h : Twins p e e' s s') (contents : Bindings Value) :
    Twins p e e' (s.newMapping contents).2 (s'.newMapping contents).2 :=
  h.keep rfl rfl fun _ hs => by rw [hs]; rfl

theorem newChild (h : Twins p e e' s s') (env : EnvId) (contents : Bindings Value) :
    Twins p e e' (s.newChild env contents).2 (s'.newChild env contents).2 :=
  h.keep rfl rfl fun _ hs => by rw [hs]; rfl

theorem write (h : Twins p e e' s s') (id : MappingId) (name : String) (v : Value) :
    Twins p e e' (s.write id name v) (s'.write id name v) :=
  h.keep rfl rfl fun _ hs => by rw [hs]; rfl

theorem emit (h : Twins p e e' s s') (v : Value) : Twins p e e' (s.emit v) (s'.emit v) :=
  h.keep rfl rfl fun _ hs => by rw [hs]; rfl

theorem environment? (h : Twins p e e' s s') (env : EnvId) :
    s'.environment? env = s.environment? env := by
  obtain ⟨_, _, records, rfl, _⟩ := h
  rfl

theorem bind (h : Twins p e e' s s') (env : EnvId) (name : String) (v : Value) :
    Twins p e e' (s.bind env name v) (s'.bind env name v) := by
  unfold Store.bind
  rw [h.environment? env]
  split
  · exact h
  · exact h.write _ name v

theorem newPromise (h : Twins p e e' s s') (expression : Value) (env : EnvId) :
    (s'.newPromise expression env).1 = (s.newPromise expression env).1 ∧
      Twins p e e' (s.newPromise expression env).2 (s'.newPromise expression env).2 := by
  obtain ⟨hexpression, hwaiting, records, rfl, hall⟩ := h
  have hlt := Store.lt_of_promise_memo hwaiting
  have hne : p ≠ (s.newPromise expression env).1 := by
    intro hp
    rw [hp] at hlt
    exact Nat.lt_irrefl _ hlt
  have hpromise : (s.newPromise expression env).2.promise p = s.promise p := by
    rw [Store.promise_newPromise, if_neg hne]
  rw [Store.newPromise_retell hlt]
  exact ⟨rfl, hpromise ▸ hexpression, hpromise ▸ hwaiting, records, rfl, hall⟩

theorem memoise (h : Twins p e e' s s') {id : PromiseId} (hid : id ≠ p) (a : Answer) :
    Twins p e e' (s.memoise id a) (s'.memoise id a) := by
  obtain ⟨hexpression, hwaiting, records, rfl, hall⟩ := h
  have hpromise : (s.memoise id a).promise p = s.promise p := by
    rw [Store.promise_memoise, if_neg fun hc => hid hc.1]
  rw [Store.memoise_retell hid]
  exact ⟨hpromise ▸ hexpression, hpromise ▸ hwaiting, records, rfl, hall⟩

theorem enter (h : Twins p e e' s s') (m : Machine) (c : Closure) (params : Value) :
    ∃ r t t', m.enter c params s = .ok r t ∧ m.enter c params s' = .ok r t' ∧
      Twins p e e' t t' := by
  have hchild := h.newChild c.env (matchParams c.params params ∅).frame
  have hid : (s'.newChild c.env (matchParams c.params params ∅).frame).1 =
      (s.newChild c.env (matchParams c.params params ∅).frame).1 := by
    obtain ⟨_, _, records, rfl, _⟩ := h
    rfl
  unfold Machine.enter
  simp only [Bind.bind, EStateM.bind, EvalM.act, hid]
  split
  · exact ⟨_, _, _, rfl, rfl, hchild.note m.level (.refl _)⟩
  · exact ⟨_, _, _, rfl, rfl, hchild⟩

/-! What evaluation looks up is the same in twins. -/

theorem chain (h : Twins p e e' s s') (env : EnvId) : s'.chain env = s.chain env := by
  obtain ⟨_, _, records, rfl, _⟩ := h
  exact Store.chain_congr (t := s.retell p e' records) (s := s) rfl env

theorem lookup (h : Twins p e e' s s') (env : EnvId) (name : String) :
    s'.lookup env name = s.lookup env name := by
  obtain ⟨_, _, records, rfl, _⟩ := h
  exact Store.lookup_congr (t := s.retell p e' records) (s := s) rfl rfl env name

end Twins

end LispCore
