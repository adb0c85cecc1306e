import LispCore.Proofs.Reshaping

/-! # Runs in stores that differ by a reshaping

Two runs of a program go side by side, in stores whose environments have different
shapes. The invariant says what the stores have in common (`Conforms`). Names are
looked up alike, since an environment is either one of the start, whose frames no one
writes to, or was made inside others that stand for each other (`Sees`).

Each operation on stores keeps the invariant, and the only one under which the
reshaping grows is that of making an environment (`Conforms.newChild`). By the law of
two evaluations side by side that carries over to all calls (`parallel_perform`). -/
namespace LispCore

/-! ## What a run keeps of its start -/

namespace Store

/-- The second store has come out of the first: the environments are there with their parents,
and the frames of the first are as they were. -/
structure FramesKept (s t : Store) : Prop where
  scope : s.Scoped
  links : s.EnvironmentsKept t
  older : t.ParentsOlder
  frames : ∀ id, s.IsFrame id → t.mapping id = s.mapping id
  size : s.mappings.size ≤ t.mappings.size

namespace FramesKept
variable {s t u : Store} {env : EnvId}

theorem refl (h : s.Scoped) : s.FramesKept s :=
  ⟨h, fun _ _ he => he, h.parent, fun _ _ => rfl, Nat.le_refl _⟩

theorem of_same (h : s.FramesKept t) (he : u.environments = t.environments)
    (hm : u.mappings = t.mappings) : s.FramesKept u := by
  have hmatured := Matured.of_environments he
  refine ⟨h.scope, h.links.trans hmatured.kept, hmatured.older h.older, fun id hid => ?_,
    hm ▸ h.size⟩
  rw [mapping, hm]
  exact h.frames id hid

theorem newMapping (h : s.FramesKept t) (contents : Bindings Value) :
    s.FramesKept (t.newMapping contents).2 where
  scope := h.scope
  links := h.links
  older := h.older
  frames id hid := by
    obtain ⟨env, e, he, rfl⟩ := hid
    have hin := h.scope.frame env e he
    have hne : e.frame ≠ (t.newMapping contents).1 := by
      intro heq
      rw [heq] at hin
      exact Nat.not_le.mpr hin h.size
    rw [mapping_newMapping, if_neg hne]
    exact h.frames _ ⟨env, e, he, rfl⟩
  size := by
    simp only [Store.newMapping, Array.size_push]
    exact Nat.le_succ_of_le h.size

theorem newChild (h : s.FramesKept t) (outer : EnvId) (contents : Bindings Value) :
    s.FramesKept (t.newChild outer contents).2 := by
  have hmatured := Matured.newChild t outer contents
  have hmapping := h.newMapping contents
  exact ⟨h.scope, h.links.trans hmatured.kept, hmatured.older h.older, hmapping.frames,
    hmapping.size⟩

theorem write (h : s.FramesKept t) {id : MappingId} (hid : ¬ s.IsFrame id) (name : String)
    (v : Value) : s.FramesKept (t.write id name v) where
  scope := h.scope
  links := h.links
  older := h.older
  frames other hother := by
    have hne : ¬ (id = other ∧ id.index < t.mappings.size) := fun heq => hid (heq.1 ▸ hother)
    rw [mapping_write, if_neg hne]
    exact h.frames other hother
  size := by
    rw [size_write]
    exact h.size

theorem frame_eq (h : s.FramesKept t) {e : Environment} (he : s.environment? env = some e) :
    t.frame env = s.frame env := by
  simp only [frame, he, h.links env e he]
  exact h.frames _ ⟨env, e, he, rfl⟩

/-- Along a path of the start, names are found where they were. -/
theorem findSome?_eq (h : s.FramesKept t) {path : List EnvId} (hpath : s.Ascent env path)
    (name : String) : (path.findSome? fun e => (t.frame e).find? name) =
      path.findSome? fun e => (s.frame e).find? name := by
  induction hpath with
  | outermost he => simp only [List.findSome?_cons, List.findSome?_nil, h.frame_eq he]
  | inner he _ _ ih => simp only [List.findSome?_cons, h.frame_eq he, ih]

theorem lookup_eq (h : s.FramesKept t) (henv : env.index < s.environments.size) (name : String) :
    t.lookup env name = s.lookup env name := by
  have hpath := ParentsOlder.ascent_chain h.scope.parent henv
  have hkept := hpath.kept h.links
  have hchain := (h.older.ascent_chain hkept.inside).unique hkept
  rw [lookup, hchain]
  exact h.findSome?_eq hpath name

end FramesKept

end Store

/-! ## Stores of the two runs -/

/-- Promises that stand for each other. What one of them would evaluate counts only until it has
an answer. -/
structure Promise.Reshaped {s : Store} (w : Reshaping s) (extra : Nat) (p p' : Promise) : Prop where
  memo : Option.Rel ((Likeness.reshaping s extra).Answers w) p.memo p'.memo
  pending : p.memo = none → Paired (w.pairing extra) p.expression p'.expression ∧ w.env p.env p'.env

/-- Why two environments see the same. They saw it at the start, or they have been made with like
frames inside environments that stand for each other. -/
inductive Sees (s s' : Store) (extra : Nat) (w : Reshaping s) (t t' : Store) (e e' : EnvId) : Prop
  | start : e.index < s.environments.size → e'.index < s'.environments.size →
      (∀ name, Option.Rel (Paired (w.pairing extra)) (s.lookup e name) (s'.lookup e' name)) →
      Sees s s' extra w t t' e e'
  | inner {f : MappingId} {outer outer' : EnvId} : t.environment? e = some ⟨f, some outer⟩ →
      t'.environment? e' = some ⟨s.shifted extra f, some outer'⟩ → w.env outer outer' →
      Sees s s' extra w t t' e e'

/-- What the stores of two runs from `s` and `s'` have in common. -/
structure Conforms (s s' : Store) (extra : Nat) (w : Reshaping s) (t t' : Store) : Prop where
  left : s.FramesKept t
  right : s'.FramesKept t'
  frames : ∀ id, s'.IsFrame (s.shifted extra id) → s.IsFrame id
  size : t'.mappings.size = t.mappings.size + extra
  sees : ∀ e e', w.env e e' → Sees s s' extra w t t' e e'
  mapping : ∀ id, (t.mapping id).Rel (Paired (w.pairing extra)) (t'.mapping (s.shifted extra id))
  promises : t'.promises.size = t.promises.size
  promise : ∀ id, (t.promise id).Reshaped w extra (t'.promise id)
  marks : t'.marks = t.marks
  records : t'.records = t.records
  effects : List.Forall₂ (Paired (w.pairing extra)) t.effects.toList t'.effects.toList

variable {s s' t t' u u' : Store} {extra : Nat} {w w' : Reshaping s}

theorem Promise.Reshaped.mono (h : w.Le w') {p p' : Promise} (hp : p.Reshaped w extra p') :
    p.Reshaped w' extra p' where
  memo := optionRel_mono (fun _ _ ha => ha.mono h) hp.memo
  pending hnone := by
    obtain ⟨he, henv⟩ := hp.pending hnone
    exact ⟨he.mono (h.pairing extra), h _ _ henv⟩

theorem Promise.Reshaped.shown {p p' : Promise} (h : p.Reshaped w extra p') :
    p.forced = p'.forced ∧ Paired (w.pairing extra) p.shown p'.shown := by
  obtain ⟨hmemo, hpending⟩ := h
  unfold Promise.shown Promise.forced Promise.result
  generalize p.memo = a, p'.memo = a' at hmemo hpending ⊢
  cases hmemo with
  | none => exact ⟨rfl, (hpending rfl).1⟩
  | some ha => exact ⟨rfl, ha.value⟩

theorem Sees.mono {e e' : EnvId} (h : Sees s s' extra w t t' e e') (hw : w.Le w')
    (hk : t.EnvironmentsKept u) (hk' : t'.EnvironmentsKept u') : Sees s s' extra w' u u' e e' := by
  cases h with
  | start hin hin' hsame =>
    refine .start hin hin' fun name => ?_
    exact optionRel_mono (fun _ _ hv => hv.mono (hw.pairing extra)) (hsame name)
  | inner he he' houter => exact .inner (hk _ _ he) (hk' _ _ he') (hw _ _ houter)

theorem optionRel_or {α β : Type} {R : α → β → Prop} {x y : Option α} {x' y' : Option β}
    (hx : Option.Rel R x x') (hy : Option.Rel R y y') : Option.Rel R (x.or y) (x'.or y') := by
  cases hx with
  | none => exact hy
  | some hab => exact .some hab

namespace Conforms

/-! ### Names and texts -/

theorem inside (h : Conforms s s' extra w t t') {e e' : EnvId} (he : w.env e e') :
    e.index < t.environments.size ∧ e'.index < t'.environments.size := by
  have hkept : ∀ {s t : Store} {e : EnvId}, s.EnvironmentsKept t → e.index < s.environments.size →
      e.index < t.environments.size :=
    fun hk hin => Store.lt_of_environment? (hk _ _ (Array.getElem?_eq_getElem hin))
  cases h.sees e e' he with
  | start hin hin' _ => exact ⟨hkept h.left.links hin, hkept h.right.links hin'⟩
  | inner he he' _ => exact ⟨Store.lt_of_environment? he, Store.lt_of_environment? he'⟩

/-- **Environments that stand for each other see the same.** The induction goes outwards, along
parents that are older. -/
theorem lookup (h : Conforms s s' extra w t t') {e e' : EnvId} (he : w.env e e') (name : String) :
    Option.Rel (Paired (w.pairing extra)) (t.lookup e name) (t'.lookup e' name) := by
  induction hn : e.index using Nat.strongRecOn generalizing e e' with
  | ind n ih =>
    cases h.sees e e' he with
    | start hin hin' hsame =>
      rw [h.left.lookup_eq hin, h.right.lookup_eq hin']
      exact hsame name
    | @inner f outer outer' henv henv' houter =>
      rw [h.left.older.lookup_inner henv rfl, h.right.older.lookup_inner henv' rfl]
      simp only [Store.frame, henv, henv']
      have hlt : outer.index < e.index := h.left.older e outer (by simp [Store.parent?, henv])
      exact optionRel_or ((h.mapping f).find? name) (ih outer.index (hn ▸ hlt) houter rfl)

/-- Stores that conform show the same of values that stand for each other. -/
theorem reveals (h : Conforms s s' extra w t t') :
    Reveals (w.pairing extra).toCorrespondence t t' where
  mark hi hk := by rw [hi, hk]
  mapping hi hk := by rw [hi, hk, Store.shifted_inj]
  contents hi := by
    rw [hi]
    exact h.mapping _
  forced hid := by
    rw [← hid]
    exact (h.promise _).shown.1
  shown _ _ hid := by
    rw [← hid]
    exact (h.promise _).shown.2

/-! ### What operations keep -/

/-- Operations that leave environments and mappings alone. -/
theorem of_layout (h : Conforms s s' extra w t t') (he : u.environments = t.environments)
    (he' : u'.environments = t'.environments) (hm : u.mappings = t.mappings)
    (hm' : u'.mappings = t'.mappings) (hsize : u'.promises.size = u.promises.size)
    (hpromise : ∀ id, (u.promise id).Reshaped w extra (u'.promise id)) (hmarks : u'.marks = u.marks)
    (hrecords : u'.records = u.records)
    (heffects : List.Forall₂ (Paired (w.pairing extra)) u.effects.toList u'.effects.toList) :
    Conforms s s' extra w u u' where
  left := h.left.of_same he hm
  right := h.right.of_same he' hm'
  frames := h.frames
  size := by rw [hm, hm', h.size]
  sees e e' hee := (h.sees e e' hee).mono (.refl w) (Store.Matured.of_environments he).kept
    (Store.Matured.of_environments he').kept
  mapping id := by
    simp only [Store.mapping, hm, hm']
    exact h.mapping id
  promises := hsize
  promise := hpromise
  marks := hmarks
  records := hrecords
  effects := heffects

theorem note (h : Conforms s s' extra w t t') (level : Int) (r : Record) :
    Conforms s s' extra w (t.note level r) (t'.note level r) := by
  unfold Store.note
  split
  · refine h.of_layout rfl rfl rfl rfl h.promises h.promise h.marks ?_ h.effects
    show t'.records.push r = t.records.push r
    rw [h.records]
  · exact h

theorem newMark (h : Conforms s s' extra w t t') :
    Conforms s s' extra w t.newMark.2 t'.newMark.2 :=
  h.of_layout rfl rfl rfl rfl h.promises h.promise (congrArg (· + 1) h.marks) h.records h.effects

theorem emit (h : Conforms s s' extra w t t') {v v' : Value} (hv : Paired (w.pairing extra) v v') :
    Conforms s s' extra w (t.emit v) (t'.emit v') := by
  refine h.of_layout rfl rfl rfl rfl h.promises h.promise h.marks h.records ?_
  simp only [Store.emit, Array.toList_push]
  exact List.rel_append h.effects (.cons hv .nil)

theorem newPromise (h : Conforms s s' extra w t t') {e e' : Value}
    (he : Paired (w.pairing extra) e e') {env env' : EnvId} (henv : w.env env env') :
    Conforms s s' extra w (t.newPromise e env).2 (t'.newPromise e' env').2 := by
  refine h.of_layout rfl rfl rfl rfl ?_ (fun id => ?_) h.marks h.records h.effects
  · simp only [Store.newPromise, Array.size_push, h.promises]
  · have hnew : (t'.newPromise e' env').1 = (t.newPromise e env).1 :=
      congrArg PromiseId.mk h.promises
    rw [Store.promise_newPromise, Store.promise_newPromise, hnew]
    split
    · exact ⟨.none, fun _ => ⟨he, henv⟩⟩
    · exact h.promise id

theorem memoise (h : Conforms s s' extra w t t') (id : PromiseId) {a a' : Answer}
    (ha : (Likeness.reshaping s extra).Answers w a a') :
    Conforms s s' extra w (t.memoise id a) (t'.memoise id a') := by
  refine h.of_layout rfl rfl rfl rfl ?_ (fun other => ?_) h.marks h.records h.effects
  · simp only [Store.memoise, Array.size_modify, h.promises]
  · rw [Store.promise_memoise, Store.promise_memoise, h.promises]
    split
    · exact ⟨.some ha, fun hnone => by cases hnone⟩
    · exact h.promise other

/-- A mapping made on both sides is in the place where the second run is to have it. -/
theorem shifted_new (h : Conforms s s' extra w t t') (id : MappingId) :
    s.shifted extra id = ⟨t'.mappings.size⟩ ↔ id = ⟨t.mappings.size⟩ := by
  rw [h.size]
  exact Store.shifted_eq_iff h.left.size

theorem mapping_new (h : Conforms s s' extra w t t') {contents contents' : Bindings Value}
    (hc : contents.Rel (Paired (w.pairing extra)) contents') (id : MappingId) :
    ((t.newMapping contents).2.mapping id).Rel (Paired (w.pairing extra))
      ((t'.newMapping contents').2.mapping (s.shifted extra id)) := by
  have hnew : s.shifted extra id = (t'.newMapping contents').1 ↔ id = (t.newMapping contents).1 :=
    h.shifted_new id
  simp only [Store.mapping_newMapping, hnew]
  split
  · exact hc
  · exact h.mapping id

theorem size_new (h : Conforms s s' extra w t t') (contents contents' : Bindings Value) :
    (t'.newMapping contents').2.mappings.size =
      (t.newMapping contents).2.mappings.size + extra := by
  simp only [Store.newMapping, Array.size_push, h.size]
  omega

theorem newMapping (h : Conforms s s' extra w t t') {contents contents' : Bindings Value}
    (hc : contents.Rel (Paired (w.pairing extra)) contents') :
    Conforms s s' extra w (t.newMapping contents).2 (t'.newMapping contents').2 where
  left := h.left.newMapping contents
  right := h.right.newMapping contents'
  frames := h.frames
  size := h.size_new contents contents'
  sees e e' he := (h.sees e e' he).mono (.refl w) (fun _ _ henv => henv) fun _ _ henv => henv
  mapping := h.mapping_new hc
  promises := h.promises
  promise := h.promise
  marks := h.marks
  records := h.records
  effects := h.effects

/-- Environments made inside two that stand for each other do so as well. -/
theorem newChild (h : Conforms s s' extra w t t') {e e' : EnvId} (he : w.env e e')
    {contents contents' : Bindings Value}
    (hc : contents.Rel (Paired (w.pairing extra)) contents') :
    Conforms s s' extra (w.extend (t.newChild e contents).1 (t'.newChild e' contents').1)
      (t.newChild e contents).2 (t'.newChild e' contents').2 := by
  have hle := w.le_extend (t.newChild e contents).1 (t'.newChild e' contents').1
  have hpaired := fun v v' (hv : Paired (w.pairing extra) v v') => hv.mono (hle.pairing extra)
  obtain ⟨hin, hin'⟩ := h.inside he
  refine ⟨h.left.newChild e contents, h.right.newChild e' contents', h.frames,
    h.size_new contents contents', ?_, fun id => (h.mapping_new hc id).mono hpaired, h.promises,
    fun id => (h.promise id).mono hle, h.marks, h.records, h.effects.imp hpaired⟩
  rintro i i' (hi | ⟨rfl, rfl⟩)
  -- the old pairs see what they saw, the new one has like frames inside an old pair
  · exact (h.sees i i' hi).mono hle (Store.Matured.newChild t e contents).kept
      (Store.Matured.newChild t' e' contents').kept
  · have hnew := Store.environment?_newChild hin contents
    have hnew' := Store.environment?_newChild hin' contents'
    rw [← (h.shifted_new _).mpr rfl] at hnew'
    exact .inner hnew hnew' (hle _ _ he)

theorem write (h : Conforms s s' extra w t t') {id : MappingId} (hid : ¬ s.IsFrame id)
    (name : String) {v v' : Value} (hv : Paired (w.pairing extra) v v') :
    Conforms s s' extra w (t.write id name v) (t'.write (s.shifted extra id) name v') where
  left := h.left.write hid name v
  right := h.right.write (fun hframe => hid (h.frames id hframe)) name v'
  frames := h.frames
  size := by rw [Store.size_write, Store.size_write, h.size]
  sees e e' he := (h.sees e e' he).mono (.refl w) (fun _ _ henv => henv) fun _ _ henv => henv
  mapping other := by
    simp only [Store.mapping_write, Store.shifted_inj, h.size, Store.shifted_lt_iff h.left.size]
    split
    · exact (h.mapping other).insert name hv
    · exact h.mapping other
  promises := h.promises
  promise := h.promise
  marks := h.marks
  records := h.records
  effects := h.effects

end Conforms

/-! ## Runs -/

/-- Two outcomes of the same kind under a reshaping that has grown, with what `P` asks of the
results. -/
inductive EndsUnder (s s' : Store) (extra : Nat) (w : Reshaping s) {α β : Type}
    (P : Reshaping s → α → β → Prop) :
    EStateM.Result Stop Store α → EStateM.Result Stop Store β → Prop
  | ok {w' : Reshaping s} {a : α} {b : β} {t t' : Store} : w.Le w' → Conforms s s' extra w' t t' →
      P w' a b → EndsUnder s s' extra w P (.ok a t) (.ok b t')
  | error {w' : Reshaping s} {e e' : Stop} {t t' : Store} : w.Le w' → Conforms s s' extra w' t t' →
      e.Rel (Paired (w'.pairing extra)) e' → EndsUnder s s' extra w P (.error e t) (.error e' t')

theorem EndsUnder.after {α β : Type} {P : Reshaping s → α → β → Prop}
    {r : EStateM.Result Stop Store α} {r' : EStateM.Result Stop Store β} (hle : w.Le w')
    (h : EndsUnder s s' extra w' P r r') : EndsUnder s s' extra w P r r' := by
  cases h with
  | ok hle' hc hP => exact .ok (hle.trans hle') hc hP
  | error hle' hc he => exact .error (hle.trans hle') hc he

/-- Computations that do the same in stores that conform. The second is given as a family of
one. -/
def Parallel (s s' : Store) (extra : Nat) {α β : Type} (w : Reshaping s)
    (P : Reshaping s → α → β → Prop) (x : EvalM α) (y : Unit → EvalM β) : Prop :=
  ∀ t t', Conforms s s' extra w t t' → EndsUnder s s' extra w P (x t) (y () t')

namespace Parallel
variable {α β α' β' : Type} {P : Reshaping s → α → β → Prop} {P' : Reshaping s → α' → β' → Prop}
  {x : EvalM α} {y : Unit → EvalM β}

protected theorem pure {a : α} {b : β} (h : P w a b) :
    Parallel s s' extra w P (pure a) fun _ => pure b :=
  fun _ _ hc => .ok (.refl w) hc h

protected theorem bind {f : α → EvalM α'} {g : Unit → β → EvalM β'}
    (hx : Parallel s s' extra w P x y)
    (hf : ∀ w' a b, w.Le w' → P w' a b → Parallel s s' extra w' P' (f a) fun i => g i b) :
    Parallel s s' extra w P' (x >>= f) fun i => y i >>= g i := by
  intro t t' hc
  have hend := hx t t' hc
  show EndsUnder s s' extra w P' ((x >>= f) t) ((y () >>= g ()) t')
  cases hxt : x t <;> cases hyt : y () t' <;> rw [hxt, hyt] at hend <;> cases hend
  · next hle hP hc' =>
    rw [EvalM.bind_ok hxt, EvalM.bind_ok hyt]
    exact .after hle (hf _ _ _ hle hP _ _ hc')
  · next hle he hc' =>
    rw [EvalM.bind_error hxt, EvalM.bind_error hyt]
    exact .error hle hc' he

/-- Operations on the store that always succeed. -/
theorem of_ok (h : ∀ t t', Conforms s s' extra w t t' → ∃ a b u u' w', x t = .ok a u ∧
    y () t' = .ok b u' ∧ w.Le w' ∧ Conforms s s' extra w' u u' ∧ P w' a b) :
    Parallel s s' extra w P x y := by
  intro t t' hc
  obtain ⟨a, b, u, u', w', hx, hy, hle, hc', hP⟩ := h t t' hc
  rw [hx, hy]
  exact .ok hle hc' hP

/-- Operations on the store under which no environment is made. -/
theorem act {f : Store → α × Store} {g : Store → β × Store}
    (h : ∀ t t', Conforms s s' extra w t t' → Conforms s s' extra w (f t).2 (g t').2)
    (hP : ∀ t t', Conforms s s' extra w t t' → P w (f t).1 (g t').1) :
    Parallel s s' extra w P (EvalM.act f) fun _ => EvalM.act g :=
  of_ok fun t t' hc => ⟨_, _, _, _, w, rfl, rfl, .refl w, h t t' hc, hP t t' hc⟩

theorem read {f : Store → α} {g : Store → β}
    (hP : ∀ t t', Conforms s s' extra w t t' → P w (f t) (g t')) :
    Parallel s s' extra w P (EvalM.read f) fun _ => EvalM.read g :=
  act (fun _ _ hc => hc) hP

theorem change {f g : Store → Store} {Q : Reshaping s → Unit → Unit → Prop} (hQ : ∀ w, Q w () ())
    (h : ∀ t t', Conforms s s' extra w t t' → Conforms s s' extra w (f t) (g t')) :
    Parallel s s' extra w Q (EvalM.change f) fun _ => EvalM.change g :=
  act h fun _ _ _ => hQ w

theorem render (d : Nat) {v v' : Value} (hv : Paired (w.pairing extra) v v') :
    Parallel s s' extra w (fun _ text text' => True → text = text') (EvalM.render d v)
      fun _ => EvalM.render d v' := by
  intro t t' hc
  simp only [EvalM.render, hc.reveals.shown.render d hv]
  cases t'.render d v' with
  | ok text => exact .ok (.refl w) hc fun _ => rfl
  | error why => exact .error (.refl w) hc why.stop_rel

theorem raise (d : Nat) {f f' : Fault} (hf : f.Rel (Paired (w.pairing extra)) f') :
    Parallel s s' extra w P (EvalM.raise d f) fun _ => EvalM.raise d f' := by
  intro t t' hc
  simp only [EvalM.raise, hf.message (hc.reveals.worded d)]
  cases f'.message t' d with
  | ok text => exact .error (.refl w) hc (.raised text hf)
  | error why => exact .error (.refl w) hc why.stop_rel

theorem note (m : Machine) (source : Source) (severity : Severity) (text : String) :
    Parallel s s' extra w (fun _ _ _ => True) (m.note source severity text)
      fun _ => m.note source severity text :=
  change (fun _ => trivial) fun _ _ hc => hc.note _ _

theorem newPromise {e e' : Value} (he : Paired (w.pairing extra) e e') {env env' : EnvId}
    (henv : w.env env env') :
    Parallel s s' extra w (fun w id id' => Paired (w.pairing extra) (.promise id) (.promise id'))
      (EvalM.act (·.newPromise e env)) fun _ => EvalM.act (·.newPromise e' env') :=
  act (fun _ _ hc => hc.newPromise he henv) fun _ _ hc =>
    .promise (congrArg PromiseId.mk hc.promises.symm)

theorem newMark : Parallel s s' extra w (fun _ => Eq) (EvalM.act Store.newMark)
    fun _ => EvalM.act Store.newMark :=
  act (fun _ _ hc => hc.newMark) fun _ _ hc => congrArg Mark.mk hc.marks.symm

theorem newPair {v v' r r' : Value} (hv : Paired (w.pairing extra) v v')
    (hr : Paired (w.pairing extra) r r') :
    Parallel s s' extra w (fun w => Paired (w.pairing extra)) (EvalM.act (·.newPair v r))
      fun _ => EvalM.act (·.newPair v' r') :=
  act (fun _ _ hc => hc.newMark) fun _ _ hc => .pair (congrArg Mark.mk hc.marks.symm) hv hr

theorem newChild {e e' : EnvId} (he : w.env e e') {contents contents' : Bindings Value}
    (hc : contents.Rel (Paired (w.pairing extra)) contents') :
    Parallel s s' extra w Reshaping.env (EvalM.act (·.newChild e contents))
      fun _ => EvalM.act (·.newChild e' contents') :=
  of_ok fun t t' hconforms => ⟨_, _, _, _, _, rfl, rfl,
    w.le_extend (t.newChild e contents).1 (t'.newChild e' contents').1, hconforms.newChild he hc,
    w.extend_self _ _⟩

theorem enter (m : Machine) {c c' : Closure} {params params' : Value}
    (hc : Paired (w.pairing extra) c.toValue c'.toValue)
    (hp : Paired (w.pairing extra) params params') :
    Parallel s s' extra w (fun w r r' => w.env r.1 r'.1 ∧ r.2 = r'.2) (m.enter c params)
      fun _ => m.enter c' params' := by
  obtain ⟨mark, names, body, env, isLazy⟩ := c
  obtain ⟨mark', names', body', env', isLazy'⟩ := c'
  cases hc with
  | closure _ _ _ _ henv =>
    obtain ⟨hframe, hmissing, hremaining⟩ := matchParams_rel (fun _ _ hv => hv.shape) .nil names hp
      (Bindings.Rel.empty (R := Paired (w.pairing extra)))
    have hexact : (matchParams names params ∅).exact = (matchParams names params' ∅).exact := by
      unfold Matching.exact
      rw [hmissing, hremaining.shape.isNil_eq]
    refine (newChild henv hframe).bind fun w' e e' _ he => ?_
    dsimp only [Closure.describe]
    rw [hexact, hmissing, hremaining.shape.isNil_eq]
    split
    · exact (note m _ _ _).bind fun _ _ _ hle _ => .pure ⟨hle _ _ he, rfl⟩
    · exact .pure ⟨he, rfl⟩

/-- Requests to the store. -/
theorem request (m : Machine) (d : Nat) {self self' : Call → EvalM Answer} {r r' : Request}
    {Q : (Likeness.reshaping s extra).World → r.Reply → r'.Reply → Prop} (hr : r.Shapeless s)
    (ha : (Likeness.reshaping s extra).StoreAsked w r r' Q) :
    Parallel s s' extra w Q (m.serveWith d self r) fun _ => m.serveWith d self' r' := by
  cases ha with
  | chain | bind => exact hr.elim
  | lookup name he => exact read fun _ _ hc => hc.lookup he name
  | newChild he => exact newChild he .empty
  | newMapping =>
    refine act (fun _ _ hc => hc.newMapping .empty) fun _ _ hc => .mapping ?_
    exact ((hc.shifted_new _).mpr rfl).symm
  | read name hid =>
    cases hid with
    | mapping hid =>
      cases hid
      exact read fun _ _ hc => (hc.mapping _).find? name
  | write name hid hv =>
    cases hid with
    | mapping hid =>
      cases hid
      exact change (fun _ => trivial) fun _ _ hc => hc.write hr name hv
  | newPromise he henv => exact newPromise he henv
  | newMark => exact newMark
  | emit hv => exact change (fun _ => trivial) fun _ _ hc => hc.emit hv
  | effects => exact read fun _ _ hc => hc.effects
  | render hv => exact render d hv

/-- Runs in parallel follow the law of evaluation. -/
theorem sideBySide (m : Machine) (d : Nat) (hlib : m.library.ShapeBlind s) :
    SideBySide (.reshaping s extra) m (fun _ => m) d (fun _ => d) (Parallel s s' extra) where
  pure hp := .pure hp
  bind hx hf := hx.bind hf
  render hv := render d hv
  note source severity text text' h := by
    rw [h trivial]
    exact note m source severity _
  lookup name he := read fun _ _ hc => hc.lookup he name
  newPair hv hr := newPair hv hr
  newPromise he henv := newPromise he henv
  enter hc hp := enter m hc hp
  report {w p p' a a'} hn ha := by
    unfold Machine.reportFailure
    rw [← ha.ok]
    split
    · exact .pure trivial
    · cases hn with
      | native routine name isLazy _ => exact note m _ _ _
  raise hf := raise d hf
  request hr ha := request m d hr ha
  library _ := rfl
  conduct hn hp he := by
    cases hn with
    | native routine name isLazy _ => exact hlib extra routine _ _ _ _ _ hp he

/-- Forcing a promise once, if evaluations go in parallel. -/
theorem forceOnceWith {self : Call → EvalM Answer}
    (hs : ∀ w c c', (Likeness.reshaping s extra).Calls w c c' →
      Parallel s s' extra w (Likeness.reshaping s extra).Answers (self c) fun _ => self c')
    (id : PromiseId) :
    Parallel s s' extra w (Likeness.reshaping s extra).Answers (Machine.forceOnceWith self id)
      fun _ => Machine.forceOnceWith self id := by
  have hread : Parallel s s' extra w (fun w => Promise.Reshaped w extra) (EvalM.read (·.promise id))
      fun _ => EvalM.read (·.promise id) := read fun _ _ hc => hc.promise id
  refine hread.bind fun w₁ p p' _ hp => ?_
  obtain ⟨e, env, memo⟩ := p
  obtain ⟨e', env', memo'⟩ := p'
  obtain ⟨hmemo, hpending⟩ := hp
  cases hmemo with
  | some ha => exact .pure ha
  | none =>
    -- both are still to be evaluated, so their expressions and environments count
    obtain ⟨he, henv⟩ := hpending rfl
    refine (hs w₁ _ _ (.evaluate he henv)).bind fun w₂ a a' _ ha => ?_
    have hstore : Parallel s s' extra w₂ (fun _ _ _ => True) (EvalM.change (·.memoise id a))
        fun _ => EvalM.change (·.memoise id a') :=
      change (fun _ => trivial) fun _ _ hc => hc.memoise id ha
    exact hstore.bind fun w₃ _ _ hle _ => .pure (ha.mono hle)

end Parallel

/-- **Every call does the same in stores that conform.** -/
theorem parallel_perform {m : Machine} (hlib : m.library.ShapeBlind s) (depth : Nat) {c c' : Call}
    (hc : (Likeness.reshaping s extra).Calls w c c') :
    Parallel s s' extra w (Likeness.reshaping s extra).Answers (m.perform depth c)
      fun _ => m.perform depth c' := by
  induction depth generalizing w c c' with
  | zero => exact fun t t' hconforms => .error (.refl w) hconforms .tooDeep
  | succ depth ih =>
    have hlaw : SideBySide (.reshaping s extra) m (fun _ => m) depth (fun _ => depth)
        (Parallel s s' extra) := Parallel.sideBySide m depth hlib
    refine hlaw.step (fun w c c' hc => ih hc) (fun w v v' hv => ?_) (fun w id id' hid => ?_) hc
    · exact hlaw.forceWith (fun w c c' hc => ih hc)
        (fun w t t' hconforms => .error (.refl w) hconforms .unfinished) m.links hv
    · cases hid with
      | promise hid =>
        cases hid
        exact Parallel.forceOnceWith (fun w c c' hc => ih hc) id

end LispCore
