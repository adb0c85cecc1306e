import LispCore.Proofs.FaultWording
import LispCore.Proofs.Reach
import LispCore.Proofs.SideBySide

/-! # Values of two stores that correspond

Two runs of a program need not make their objects in the same order, so what one calls
its third promise may be the second of the other. A correspondence says which objects of
two stores, and which marks, are to be the same. Values correspond if they are built alike
from objects that do (`Corresponds`); correspondences can be turned round and put one after
the other, and so can values that correspond.

The text of a value shows no name of an object. So values that correspond have the same
texts, as long as corresponding promises show values that do (`Presents`). Their
descriptions enter mappings too, and show whether an object is met again inside itself, so
for these the contents of mappings have to correspond and nothing may correspond to two
(`Reveals`). -/
namespace LispCore

/-- Which places and marks of two stores are to be the same. -/
structure Correspondence where
  mapping : MappingId → MappingId → Prop
  env : EnvId → EnvId → Prop
  promise : PromiseId → PromiseId → Prop
  mark : Mark → Mark → Prop

namespace Correspondence

/-- All that corresponds by the one corresponds by the other. -/
structure Le (c d : Correspondence) : Prop where
  mapping : ∀ i j, c.mapping i j → d.mapping i j
  env : ∀ i j, c.env i j → d.env i j
  promise : ∀ i j, c.promise i j → d.promise i j
  mark : ∀ i j, c.mark i j → d.mark i j

theorem Le.refl (c : Correspondence) : c.Le c :=
  ⟨fun _ _ h => h, fun _ _ h => h, fun _ _ h => h, fun _ _ h => h⟩

theorem Le.trans {c d e : Correspondence} (h : c.Le d) (h' : d.Le e) : c.Le e where
  mapping i j hij := h'.mapping i j (h.mapping i j hij)
  env i j hij := h'.env i j (h.env i j hij)
  promise i j hij := h'.promise i j (h.promise i j hij)
  mark i j hij := h'.mark i j (h.mark i j hij)

/-- The correspondence seen from the other side. -/
def flip (c : Correspondence) : Correspondence where
  mapping i j := c.mapping j i
  env i j := c.env j i
  promise i j := c.promise j i
  mark i j := c.mark j i

/-- One correspondence after another. -/
def comp (c d : Correspondence) : Correspondence where
  mapping i k := ∃ j, c.mapping i j ∧ d.mapping j k
  env i k := ∃ j, c.env i j ∧ d.env j k
  promise i k := ∃ j, c.promise i j ∧ d.promise j k
  mark i k := ∃ j, c.mark i j ∧ d.mark j k

theorem Le.flip {c d : Correspondence} (h : c.Le d) : c.flip.Le d.flip where
  mapping i j := h.mapping j i
  env i j := h.env j i
  promise i j := h.promise j i
  mark i j := h.mark j i

theorem Le.comp {c d c' d' : Correspondence} (h : c.Le d) (h' : c'.Le d') :
    (c.comp c').Le (d.comp d') where
  mapping _ _ := fun ⟨j, hij, hjk⟩ => ⟨j, h.mapping _ _ hij, h'.mapping _ _ hjk⟩
  env _ _ := fun ⟨j, hij, hjk⟩ => ⟨j, h.env _ _ hij, h'.env _ _ hjk⟩
  promise _ _ := fun ⟨j, hij, hjk⟩ => ⟨j, h.promise _ _ hij, h'.promise _ _ hjk⟩
  mark _ _ := fun ⟨j, hij, hjk⟩ => ⟨j, h.mark _ _ hij, h'.mark _ _ hjk⟩

end Correspondence

/-! ## Values -/

/-- Values that are built alike from objects that correspond. -/
inductive Corresponds (c : Correspondence) : Value → Value → Prop
  | nil : Corresponds c .nil .nil
  | integer (n : Int) : Corresponds c (.integer n) (.integer n)
  | number (x : Binary64) : Corresponds c (.float (.number x)) (.float (.number x))
  | nan {i j : Mark} : c.mark i j → Corresponds c (.float (.nan i)) (.float (.nan j))
  | string (text : String) : Corresponds c (.string text) (.string text)
  | symbol (name : String) : Corresponds c (.symbol name) (.symbol name)
  | pair {i j : Mark} {v v' r r' : Value} : c.mark i j → Corresponds c v v' →
      Corresponds c r r' → Corresponds c (.pair i v r) (.pair j v' r')
  | mapping {i j : MappingId} : c.mapping i j → Corresponds c (.mapping i) (.mapping j)
  | array {i j : Mark} {vs vs' : List Value} : c.mark i j → vs.length = vs'.length →
      (∀ (k : Nat) v v', vs[k]? = some v → vs'[k]? = some v' → Corresponds c v v') →
      Corresponds c (.array i vs) (.array j vs')
  | closure {i j : Mark} (params : List String) {body body' : Value} {e e' : EnvId}
      (isLazy : Bool) : c.mark i j → Corresponds c body body' → c.env e e' →
      Corresponds c (.closure i params body e isLazy) (.closure j params body' e' isLazy)
  | native {i j : Mark} (routine name : String) (isLazy : Bool) : c.mark i j →
      Corresponds c (.native ⟨i, routine, name, isLazy⟩) (.native ⟨j, routine, name, isLazy⟩)
  | promise {i j : PromiseId} : c.promise i j → Corresponds c (.promise i) (.promise j)

namespace Corresponds
variable {c d : Correspondence} {v v' v'' : Value}

theorem mono (h : c.Le d) (hv : Corresponds c v v') : Corresponds d v v' := by
  induction hv with
  | nil => exact .nil
  | integer n => exact .integer n
  | number x => exact .number x
  | nan hm => exact .nan (h.mark _ _ hm)
  | string text => exact .string text
  | symbol name => exact .symbol name
  | pair hm _ _ ihv ihr => exact .pair (h.mark _ _ hm) ihv ihr
  | mapping hid => exact .mapping (h.mapping _ _ hid)
  | array hm hl _ ih => exact .array (h.mark _ _ hm) hl ih
  | closure params isLazy hm _ he ih =>
    exact .closure params isLazy (h.mark _ _ hm) ih (h.env _ _ he)
  | native routine name isLazy hm => exact .native routine name isLazy (h.mark _ _ hm)
  | promise hid => exact .promise (h.promise _ _ hid)

theorem symm (hv : Corresponds c v v') : Corresponds c.flip v' v := by
  induction hv with
  | nil => exact .nil
  | integer n => exact .integer n
  | number x => exact .number x
  | nan hm => exact .nan hm
  | string text => exact .string text
  | symbol name => exact .symbol name
  | pair hm _ _ ihv ihr => exact .pair hm ihv ihr
  | mapping hid => exact .mapping hid
  | array hm hl _ ih => exact .array hm hl.symm fun k v v' h h' => ih k v' v h' h
  | closure params isLazy hm _ he ih => exact .closure params isLazy hm ih he
  | native routine name isLazy hm => exact .native routine name isLazy hm
  | promise hid => exact .promise hid

theorem trans (hv : Corresponds c v v') (hv' : Corresponds d v' v'') :
    Corresponds (c.comp d) v v'' := by
  induction hv generalizing v'' with
  | nil => cases hv'; exact .nil
  | integer n => cases hv'; exact .integer n
  | number x => cases hv'; exact .number x
  | nan hm =>
    cases hv' with
    | nan hm' => exact .nan ⟨_, hm, hm'⟩
  | string text => cases hv'; exact .string text
  | symbol name => cases hv'; exact .symbol name
  | pair hm _ _ ihv ihr =>
    cases hv' with
    | pair hm' hv' hr' => exact .pair ⟨_, hm, hm'⟩ (ihv hv') (ihr hr')
  | mapping hid =>
    cases hv' with
    | mapping hid' => exact .mapping ⟨_, hid, hid'⟩
  | @array _ _ vs vs' hm hl _ ih =>
    cases hv' with
    | array hm' hl' hall =>
      refine .array ⟨_, hm, hm'⟩ (hl.trans hl') fun k v v'' h h'' => ?_
      have hk : k < vs'.length := hl ▸ (List.getElem?_eq_some_iff.mp h).1
      have h' : vs'[k]? = some vs'[k] := List.getElem?_eq_getElem hk
      exact ih k v _ h h' (hall k _ v'' h' h'')
  | closure params isLazy hm _ he ih =>
    cases hv' with
    | closure _ _ hm' hbody' he' =>
      exact .closure params isLazy ⟨_, hm, hm'⟩ (ih hbody') ⟨_, he, he'⟩
  | native routine name isLazy hm =>
    cases hv' with
    | native _ _ _ hm' => exact .native routine name isLazy ⟨_, hm, hm'⟩
  | promise hid =>
    cases hv' with
    | promise hid' => exact .promise ⟨_, hid, hid'⟩

theorem shape (hv : Corresponds c v v') : Shape (Corresponds c) v v' := by
  cases hv with
  | nil => exact .nil
  | integer n => exact .integer n n
  | number x => exact .float _ _
  | nan hm => exact .float _ _
  | string text => exact .string text text
  | symbol name => exact .symbol name
  | pair hm hv hr => exact .pair _ _ hv hr
  | mapping hid => exact .mapping _ _
  | array hm hl hall => exact .array _ _ _ _
  | closure params isLazy hm hbody he => exact .closure _ _ params params _ _ isLazy hbody
  | native routine name isLazy hm => exact .native rfl
  | promise hid => exact .promise _ _

theorem tag_eq (hv : Corresponds c v v') : v.tag = v'.tag := by
  cases hv <;> rfl

/-- A value corresponds to itself if all that it mentions does. -/
theorem of_within {Q : Region} (hmark : ∀ i, c.mark i i)
    (hmap : ∀ i, Q (.mapping i) → c.mapping i i) (henv : ∀ i, Q (.env i) → c.env i i)
    (hpro : ∀ i, Q (.promise i) → c.promise i i) :
    ∀ {v : Value}, v.Within Q → Corresponds c v v
  | .nil, _ => .nil
  | .integer n, _ => .integer n
  | .float (.number x), _ => .number x
  | .float (.nan i), _ => .nan (hmark i)
  | .string text, _ => .string text
  | .symbol name, _ => .symbol name
  | .pair i _ _, h =>
    have h := Value.within_pair.mp h
    .pair (hmark i) (of_within hmark hmap henv hpro h.1) (of_within hmark hmap henv hpro h.2)
  | .mapping i, h => .mapping (hmap i (Value.within_mapping.mp h))
  | .array i vs, h => by
    refine .array (hmark i) rfl fun k v v' hv hv' => ?_
    obtain rfl : v = v' := Option.some.inj (hv.symm.trans hv')
    have hmem : v ∈ vs := List.mem_of_getElem? hv
    exact of_within hmark hmap henv hpro (Value.within_array.mp h v hmem)
  | .closure i params _ e isLazy, h =>
    have h := Value.within_closure.mp h
    .closure params isLazy (hmark i) (of_within hmark hmap henv hpro h.1) (henv e h.2)
  | .native ⟨i, routine, name, isLazy⟩, _ => .native routine name isLazy (hmark i)
  | .promise i, h => .promise (hpro i (Value.within_promise.mp h))

/-- Values without objects differ in marks only. -/
theorem of_objectless (hm : ∀ i j, c.mark i j → d.mark i j) (hv : Corresponds c v v')
    (h : v.Within fun _ => False) : Corresponds d v v' := by
  induction hv with
  | nil => exact .nil
  | integer n => exact .integer n
  | number x => exact .number x
  | nan hij => exact .nan (hm _ _ hij)
  | string text => exact .string text
  | symbol name => exact .symbol name
  | pair hij _ _ ihv ihr =>
    rw [Value.within_pair] at h
    exact .pair (hm _ _ hij) (ihv h.1) (ihr h.2)
  | array hij hl _ ih =>
    rw [Value.within_array] at h
    exact .array (hm _ _ hij) hl fun k v v' hv hv' =>
      ih k v v' hv hv' (h v (List.mem_of_getElem? hv))
  | native routine name isLazy hij => exact .native routine name isLazy (hm _ _ hij)
  | mapping => exact (Value.within_mapping.mp h).elim
  | closure => exact (Value.within_closure.mp h).2.elim
  | promise => exact (Value.within_promise.mp h).elim

/-- Values that correspond have the same text, if corresponding parts and promises have. -/
theorem renderWith_eq {inside inside' : Value.Position → Value → Written String}
    {o o' : PromiseId → Written String}
    (hinside : ∀ pos v v', Corresponds c v v' → inside pos v = inside' pos v')
    (h : ∀ i j, c.promise i j → o i = o' j) (pos : Value.Position) (hv : Corresponds c v v') :
    Value.renderWith inside o pos v = Value.renderWith inside' o' pos v' := by
  cases hv with
  | pair hm hv hr => cases pos <;> simp only [Value.renderWith, hinside _ _ _ hv, hinside _ _ _ hr]
  | promise hid => cases pos <;> simp only [Value.renderWith, h _ _ hid]
  | _ => cases pos <;> simp only [Value.renderWith, Flonum.fixedText]

end Corresponds

/-- Parameters that correspond meet the names of a closure alike. -/
theorem matchParams_corresponds {c : Correspondence} (names : List String)
    {params params' : Value} {frame frame' : Bindings Value} (hp : Corresponds c params params')
    (hf : frame.Rel (Corresponds c) frame') :
    (matchParams names params frame).frame.Rel (Corresponds c)
        (matchParams names params' frame').frame ∧
      (matchParams names params frame).exact = (matchParams names params' frame').exact := by
  obtain ⟨hframe, hmissing, hremaining⟩ :=
    matchParams_rel (fun _ _ hv => hv.shape) .nil names hp hf
  refine ⟨hframe, ?_⟩
  unfold Matching.exact
  rw [hmissing, hremaining.shape.isNil_eq]

/-! ## Chains -/

/-- The environments are there, and those around them are related too, and older. -/
def EnvsLinked (R : EnvId → EnvId → Prop) (s s' : Store) (env env' : EnvId) : Prop :=
  ∃ e e', s.environment? env = some e ∧ s'.environment? env' = some e' ∧
    Option.Rel (fun p p' => R p p' ∧ p.index < env.index ∧ p'.index < env'.index) e.parent e'.parent

/-- Chains are as long as each other. The steps need not be as many: parents are older,
so either number suffices. -/
theorem chainWithin_rel {R : EnvId → EnvId → Prop} {s s' : Store}
    (hR : ∀ env env', R env env' → EnvsLinked R s s' env env') {steps steps' : Nat}
    {env env' : EnvId} (h : R env env') (hs : env.index < steps) (hs' : env'.index < steps') :
    List.Forall₂ R (s.chainWithin steps env) (s'.chainWithin steps' env') := by
  induction steps generalizing steps' env env' with
  | zero => exact absurd hs (Nat.not_lt_zero _)
  | succ steps ih =>
    obtain ⟨steps', rfl⟩ : ∃ n, steps' = n + 1 := ⟨steps' - 1, by omega⟩
    obtain ⟨⟨frame, parent⟩, ⟨frame', parent'⟩, he, he', hparent⟩ := hR env env' h
    simp only [Store.chainWithin, he, he']
    cases hparent with
    | none => exact .cons h .nil
    | some hp =>
      obtain ⟨hp, hlt, hlt'⟩ := hp
      exact .cons h (ih hp (by omega) (by omega))

theorem chain_rel {R : EnvId → EnvId → Prop} {s s' : Store}
    (hR : ∀ env env', R env env' → EnvsLinked R s s' env env') {env env' : EnvId}
    (h : R env env') : List.Forall₂ R (s.chain env) (s'.chain env') :=
  chainWithin_rel hR h (Nat.lt_succ_self _) (Nat.lt_succ_self _)

/-! ## Texts -/

/-- Corresponding promises show values that correspond. -/
def Presents (c : Correspondence) (s s' : Store) : Prop :=
  ∀ i j, c.promise i j → Corresponds c (s.promise i).shown (s'.promise j).shown

section Texts
variable {c : Correspondence} {s s' : Store}

theorem Presents.renderAt (h : Presents c s s') (depth : Nat) (pos : Value.Position)
    {v v' : Value} (hv : Corresponds c v v') :
    s.renderAt depth pos v = s'.renderAt depth pos v' := by
  induction depth generalizing pos v v' with
  | zero => exact hv.renderWith_eq (fun _ _ _ _ => rfl) (fun _ _ _ => rfl) pos
  | succ depth ih =>
    exact hv.renderWith_eq (fun pos _ _ hv => ih pos hv) (fun i j hij => ih .alone (h i j hij)) pos

/-- **Values that correspond have the same text.** -/
theorem Presents.render (h : Presents c s s') (depth : Nat) {v v' : Value}
    (hv : Corresponds c v v') : s.render depth v = s'.render depth v' :=
  h.renderAt depth .alone hv

theorem mapM_rel {α β γ : Type} {f : α → Written γ} {g : β → Written γ} {l : List α} {l' : List β}
    (hl : l.length = l'.length)
    (h : ∀ (k : Nat) a b, l[k]? = some a → l'[k]? = some b → f a = g b) : l.mapM f = l'.mapM g := by
  induction l generalizing l' with
  | nil =>
    obtain rfl : l' = [] := List.length_eq_zero_iff.mp hl.symm
    rfl
  | cons a l ih =>
    cases l' with
    | nil => cases hl
    | cons b l' =>
      have hrest := ih (Nat.succ.inj hl) fun k a b ha hb => h (k + 1) a b ha hb
      simp only [List.mapM_cons, hrest, h 0 a b rfl rfl]

/-- The entries of related bindings are written by describing related values. -/
theorem entriesText_rel {R : Value → Value → Prop} {key : String → String}
    {f g : Value → Written String} {b b' : Bindings Value} (hb : b.Rel R b')
    (h : ∀ v v', R v v' → f v = g v') : entriesText key f b = entriesText key g b' := by
  unfold entriesText Bindings.Rel at *
  congr 1
  generalize b.entries = l, b'.entries = l' at hb ⊢
  induction hb with
  | nil => rfl
  | cons he _ ih => simp only [List.mapM_cons, ih, he.1, h _ _ he.2]

/-- Identities that correspond. -/
inductive Identity.Rel (c : Correspondence) : Identity → Identity → Prop
  | mark {i j : Mark} : c.mark i j → Identity.Rel c (.mark i) (.mark j)
  | mapping {i j : MappingId} : c.mapping i j → Identity.Rel c (.mapping i) (.mapping j)

/-- All of a value that its description shows corresponds in the two stores: the contents of
mappings, what promises show and whether they have been forced, and which objects are the
same. -/
structure Reveals (c : Correspondence) (s s' : Store) : Prop where
  mark {i k i' k' : Mark} : c.mark i i' → c.mark k k' → (i = k ↔ i' = k')
  mapping {i k i' k' : MappingId} : c.mapping i i' → c.mapping k k' → (i = k ↔ i' = k')
  contents {i i' : MappingId} : c.mapping i i' → (s.mapping i).Rel (Corresponds c) (s'.mapping i')
  forced {i i' : PromiseId} : c.promise i i' → (s.promise i).forced = (s'.promise i').forced
  shown : Presents c s s'

namespace Reveals
variable {busy busy' : List Identity} {x y x' y' : Identity} {v v' : Value}

/-- An identity is met again on one side exactly when it is on the other. -/
theorem eq_iff (h : Reveals c s s') (hx : x.Rel c x') (hy : y.Rel c y') : x = y ↔ x' = y' := by
  cases hx with
  | mark hx =>
    cases hy with
    | mark hy => simpa using h.mark hx hy
    | mapping hy => simp
  | mapping hx =>
    cases hy with
    | mark hy => simp
    | mapping hy => simpa using h.mapping hx hy

theorem contains_eq (h : Reveals c s s') (hb : List.Forall₂ (Identity.Rel c) busy busy')
    (hx : x.Rel c x') : busy.contains x = busy'.contains x' := by
  induction hb with
  | nil => rfl
  | cons hy _ ih => simp only [List.contains_cons, ih, beq_eq_decide, h.eq_iff hx hy]

theorem guarded_eq (h : Reveals c s s') (hb : List.Forall₂ (Identity.Rel c) busy busy')
    (hx : x.Rel c x') {f g : List Identity → Written String}
    (hfg : f (x :: busy) = g (x' :: busy')) : guarded busy x f = guarded busy' x' g := by
  unfold guarded
  rw [h.contains_eq hb hx, hfg]

theorem describeWith (h : Reveals c s s') {i i' : List Identity → Value → Written String}
    (hi : ∀ busy busy' v v', List.Forall₂ (Identity.Rel c) busy busy' → Corresponds c v v' →
      i busy v = i' busy' v') (hb : List.Forall₂ (Identity.Rel c) busy busy')
    (hv : Corresponds c v v') : s.describeWith i busy v = s'.describeWith i' busy' v' := by
  cases hv with
  | pair hm hfirst hrest =>
    have hb' := hb.cons (.mark hm)
    simp only [Store.describeWith]
    refine h.guarded_eq hb (.mark hm) ?_
    rw [hi _ _ _ _ hb' hfirst, hi _ _ _ _ hb' hrest]
  | mapping hid =>
    simp only [Store.describeWith]
    refine h.guarded_eq hb (.mapping hid) (congrArg _ ?_)
    exact entriesText_rel (h.contents hid) fun v v' hv => hi _ _ v v' (hb.cons (.mapping hid)) hv
  | array hm hl hitems =>
    simp only [Store.describeWith]
    refine h.guarded_eq hb (.mark hm) (congrArg _ ?_)
    exact mapM_rel hl fun k v v' hk hk' => hi _ _ v v' (hb.cons (.mark hm)) (hitems k v v' hk hk')
  | promise hid => simp only [Store.describeWith, h.forced hid, hi _ _ _ _ hb (h.shown _ _ hid)]
  | _ => simp only [Store.describeWith, Flonum.shortestText, Closure.describe, Native.describe]

theorem describeIn (h : Reveals c s s') (depth : Nat)
    (hb : List.Forall₂ (Identity.Rel c) busy busy') (hv : Corresponds c v v') :
    s.describeIn depth busy v = s'.describeIn depth busy' v' := by
  induction depth generalizing busy busy' v v' with
  | zero => exact h.describeWith (fun _ _ _ _ _ _ => rfl) hb hv
  | succ depth ih => exact h.describeWith (fun _ _ _ _ hb hv => ih hb hv) hb hv

/-- **Values that correspond have the same description.** -/
theorem describe (h : Reveals c s s') (depth : Nat) (hv : Corresponds c v v') :
    s.describe depth v = s'.describe depth v' :=
  h.describeIn depth .nil hv

theorem worded (h : Reveals c s s') (depth : Nat) :
    Worded (Corresponds c) Eq s s' depth depth where
  refl _ := rfl
  map f _ _ hxy := congrArg (Except.map f) hxy
  tag hv := hv.tag_eq
  real hx := by cases hx <;> rfl
  describe hv := h.describe depth hv
  render hv := h.shown.render depth hv

end Reveals

end Texts

end LispCore
