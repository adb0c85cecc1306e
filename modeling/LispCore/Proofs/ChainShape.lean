import LispCore.Proofs.BigStep
import LispCore.Proofs.Conforming
import LispCore.Proofs.DepthBound

/-! # The shape of an environment's chain cannot be observed

Take two environments that see the same values under the same names, however these are
spread over the frames around them. An expression evaluated in the one ends as it does
in the other, as long as natives are blind to the shape of environments: with the same
answer or error, up to the environments inside closures and promises, and with the same
effects and records (`chain_shape_unobservable`).

A closure without parameters evaluates its body in a new environment with an empty
frame, which is such another environment. That run has one frame more than one without
the closure, so the two start from stores that differ (`Store.Resembles`). -/
namespace LispCore

variable {s s' t t' : Store} {extra : Nat} {w : Reshaping s}

/-! ## Where runs start -/

namespace Store

theorem Closed.scoped (h : s.Closed) : s.Scoped :=
  ⟨fun _ _ he => Nat.lt_of_not_le (h.holds _ _ (.frame he)), h.parent⟩

/-- What a name stands for lies in the store. -/
theorem Closed.lookup_within (h : s.Closed) {env : EnvId} {name : String} {v : Value}
    (hv : s.lookup env name = some v) : v.Within s.Has := by
  obtain ⟨e, -, hfound⟩ := List.exists_of_findSome?_eq_some hv
  unfold frame at hfound
  split at hfound
  · cases hfound
  · intro o ho
    exact h.holds _ o (.entry (Bindings.mem_of_findIn hfound) ho)

/-- The second store is the first with some more frames, which the environments of the first do
not have around them. -/
structure Resembles (s s' : Store) (extra : Nat) : Prop where
  scope : s'.Scoped
  frames : ∀ id, s'.IsFrame (s.shifted extra id) → s.IsFrame id
  size : s'.mappings.size = s.mappings.size + extra
  mapping : ∀ id, s'.mapping (s.shifted extra id) = s.mapping id
  lookup : ∀ e : EnvId, e.index < s.environments.size → e.index < s'.environments.size ∧
    ∀ name, s'.lookup e name = s.lookup e name
  promises : s'.promises = s.promises
  marks : s'.marks = s.marks
  records : s'.records = s.records
  effects : s'.effects = s.effects

theorem Resembles.refl (h : s.Scoped) : s.Resembles s 0 where
  scope := h
  frames id hid := by rwa [shifted_zero] at hid
  size := rfl
  mapping id := by rw [shifted_zero]
  lookup _ he := ⟨he, fun _ => rfl⟩
  promises := rfl
  marks := rfl
  records := rfl
  effects := rfl

/-- No mapping moves to the first place behind the store, if one is to stand there. -/
theorem shifted_one_ne (id : MappingId) : s.shifted 1 id ≠ ⟨s.mappings.size⟩ := by
  obtain ⟨i⟩ := id
  unfold shifted
  grind

theorem environment?_newChild_cases {env e : EnvId} {contents : Bindings Value}
    {environment : Environment}
    (he : (s.newChild env contents).2.environment? e = some environment) :
    environment.frame = ⟨s.mappings.size⟩ ∨ s.environment? e = some environment := by
  unfold Store.newChild at he
  generalize (if env.index < s.environments.size then some env else none) = parent at he
  rw [environment?_newEnvironment] at he
  split at he
  · cases he
    exact .inl rfl
  · exact .inr he

theorem Resembles.newChild (h : s.Scoped) (env : EnvId) : s.Resembles (s.newChild env ∅).2 1 where
  scope := by
    refine ⟨fun e environment he => ?_, (Matured.newChild s env ∅).older h.parent⟩
    have hsize : (s.newChild env ∅).2.mappings.size = s.mappings.size + 1 := by
      simp [Store.newChild, newEnvironment, newMapping]
    rw [hsize]
    rcases environment?_newChild_cases he with hnew | hold
    · rw [hnew]
      exact Nat.lt_succ_self _
    · exact Nat.lt_succ_of_lt (h.frame e environment hold)
  frames id hid := by
    obtain ⟨e, environment, he, hframe⟩ := hid
    rcases environment?_newChild_cases he with hnew | hold
    · exact absurd (hframe.symm.trans hnew) (shifted_one_ne id)
    · have hstay : s.shifted 1 environment.frame = environment.frame :=
        shifted_of_lt (h.frame e environment hold)
      rw [← hstay, shifted_inj] at hframe
      exact ⟨e, environment, hold, hframe⟩
  size := by simp [Store.newChild, newEnvironment, newMapping]
  mapping id := by
    have hne : s.shifted 1 id ≠ (s.newMapping ∅).1 := shifted_one_ne id
    show (s.newMapping ∅).2.mapping _ = _
    rw [mapping_newMapping, if_neg hne]
    by_cases hin : id.index < s.mappings.size
    · rw [shifted_of_lt hin]
    · have hout := Nat.le_of_not_lt hin
      have hout' : ¬ id.index + 1 < s.mappings.size := by omega
      rw [shifted_of_le hout]
      simp [Store.mapping, Array.getD, hin, hout']
  lookup e he := by
    refine ⟨?_, fun name => lookup_newChild_of_lt env ∅ h he name⟩
    exact lt_of_environment? ((Matured.newChild s env ∅).kept e _ (Array.getElem?_eq_getElem he))
  promises := rfl
  marks := rfl
  records := rfl
  effects := rfl

end Store

/-- **At the start the stores conform** if one environment sees in the second what another one
sees in the first, and the second has those of the first as they were. -/
theorem Conforms.start (hs : s.Closed) (heffects : ∀ v ∈ s.effects, v.Within s.Has)
    (h : s.Resembles s' extra) {a b : EnvId} (ha : a.index < s.environments.size)
    (hb : b.index < s'.environments.size) (hab : ∀ name, s'.lookup b name = s.lookup a name) :
    Conforms s s' extra ((Reshaping.initial s).extend a b) s s' := by
  have hself := fun (v : Value) (hv : v.Within s.Has) =>
    ((Reshaping.initial s).extend a b).paired_self extra hv
  have hlookup : ∀ e name, Option.Rel (Paired (((Reshaping.initial s).extend a b).pairing extra))
      (s.lookup e name) (s.lookup e name) := by
    intro e name
    cases hv : s.lookup e name with
    | none => exact .none
    | some v => exact .some (hself v (hs.lookup_within hv))
  refine ⟨.refl hs.scoped, .refl h.scope, h.frames, h.size, ?_, fun id => ?_,
    congrArg Array.size h.promises, fun id => ?_, h.marks, h.records, ?_⟩
  · rintro e e' (⟨he, rfl⟩ | ⟨rfl, rfl⟩)
    · obtain ⟨he', hsame⟩ := h.lookup e he
      exact .start he he' fun name => (hsame name).symm ▸ hlookup e name
    · exact .start ha hb fun name => (hab name).symm ▸ hlookup e name
  · rw [h.mapping id]
    exact List.forall₂_same.mpr fun e he => ⟨rfl, hself e.2 fun o ho => hs.holds _ o (.entry he ho)⟩
  · have hsame : s'.promise id = s.promise id := by simp only [Store.promise, h.promises]
    rw [hsame]
    by_cases hin : id.index < s.promises.size
    · have hget : s.promises[id.index]? = some (s.promise id) := by
        simp [Store.promise, Array.getD_eq_getD_getElem?, hin]
      refine ⟨?_, fun _ => ⟨hself _ fun o ho => hs.holds _ o (.expression hget ho), ?_⟩⟩
      · cases hm : (s.promise id).memo with
        | none => exact .none
        | some answer => exact .some ⟨rfl, hself _ fun o ho => hs.holds _ o (.result hget hm ho)⟩
      · exact .inl ⟨Nat.lt_of_not_le (hs.holds _ _ (.captured hget)), rfl⟩
    · -- a place outside the store reads as a promise that has failed, on both sides
      have hnone : s.promise id = ⟨.nil, ⟨0⟩, some .failure⟩ := by simp [Store.promise, hin]
      rw [hnone]
      exact ⟨.some (.failure _), fun hmemo => by cases hmemo⟩
  · rw [h.effects]
    exact List.forall₂_same.mpr fun v hv => hself v (heffects v (Array.mem_toList_iff.mp hv))

/-! ## Main result -/

/-- Values that stand for each other. Those that hold no closure and no promise are the same, their
mappings being in the same place. -/
structure SameValue (w : Reshaping s) (extra : Nat) (v v' : Value) : Prop where
  built : Paired (w.pairing extra) v v'
  same : v.Within (s.Stays extra) → v' = v

/-- Stores that cannot be told apart. Environments that stand for each other see the same values,
mappings hold the same, promises have the same answers, and the same has been noted and made visible
outside. -/
structure SameView (w : Reshaping s) (extra : Nat) (t t' : Store) : Prop where
  lookup : ∀ e e', w.env e e' →
    ∀ name, Option.Rel (SameValue w extra) (t.lookup e name) (t'.lookup e' name)
  mapping : ∀ id, (t.mapping id).Rel (SameValue w extra) (t'.mapping (s.shifted extra id))
  promise : ∀ id, (t.promise id).Reshaped w extra (t'.promise id)
  records : t'.records = t.records
  effects : List.Forall₂ (SameValue w extra) t.effects.toList t'.effects.toList
  texts : ∀ d v v', SameValue w extra v v' →
    t.render d v = t'.render d v' ∧ t.describe d v = t'.describe d v'

/-- Two runs from `s`, the second of them with some more frames, end alike: with answers that are
both successes or both failures, or with the same error. -/
inductive SameEnd (s : Store) (extra : Nat) :
    EStateM.Result Stop Store Answer → EStateM.Result Stop Store Answer → Prop
  | answered {w : Reshaping s} {a a' : Answer} {t t' : Store} : a'.ok = a.ok →
      SameValue w extra a.value a'.value → SameView w extra t t' →
      SameEnd s extra (.ok a t) (.ok a' t')
  | stopped {w : Reshaping s} {e e' : Stop} {t t' : Store} : e.Rel (SameValue w extra) e' →
      SameView w extra t t' → SameEnd s extra (.error e t) (.error e' t')

theorem SameValue.of_paired (v v' : Value) (h : Paired (w.pairing extra) v v') :
    SameValue w extra v v' :=
  ⟨h, Reshaping.eq_of_paired h⟩

theorem Conforms.sameView (h : Conforms s s' extra w t t') : SameView w extra t t' where
  lookup _ _ he name := optionRel_mono SameValue.of_paired (h.lookup he name)
  mapping id := (h.mapping id).mono SameValue.of_paired
  promise := h.promise
  records := h.records
  effects := h.effects.imp SameValue.of_paired
  texts d _ _ hv := ⟨h.reveals.shown.render d hv.built, h.reveals.describe d hv.built⟩

theorem EndsUnder.sameEnd {r r' : EStateM.Result Stop Store Answer}
    (h : EndsUnder s s' extra w (Likeness.reshaping s extra).Answers r r') :
    SameEnd s extra r r' := by
  cases h with
  | ok _ hc ha => exact .answered ha.ok.symm (.of_paired _ _ ha.value) hc.sameView
  | error _ hc he => exact .stopped (he.mono SameValue.of_paired) hc.sameView

/-- Effects that hold no closure and no promise are the same. -/
theorem SameView.effects_eq (h : SameView w extra t t')
    (hflat : ∀ v ∈ t.effects, v.Within (s.Stays extra)) : t'.effects = t.effects := by
  refine Array.toList_inj.mp (List.ext_getElem h.effects.length_eq.symm fun i hi hi' => ?_)
  exact (h.effects.get hi' hi).same (hflat _ (Array.mem_toList_iff.mp (List.getElem_mem hi')))

section Evaluation
variable {m : Machine} {x : Value}

/-- An expression ends alike in two environments that see the same. -/
theorem evaluate_sameEnd (hs : s.Closed) (heffects : ∀ v ∈ s.effects, v.Within s.Has)
    (hlib : m.library.ShapeBlind s) (hx : x.Within s.Has) (h : s.Resembles s' extra) {a b : EnvId}
    (ha : a.index < s.environments.size) (hb : b.index < s'.environments.size)
    (hab : ∀ name, s'.lookup b name = s.lookup a name) (depth : Nat) :
    SameEnd s extra (m.evaluate depth x a s) (m.evaluate depth x b s') := by
  have hcall : (Likeness.reshaping s extra).Calls ((Reshaping.initial s).extend a b)
      (.evaluate x a) (.evaluate x b) :=
    .evaluate (Reshaping.paired_self _ extra hx) (Reshaping.extend_self _ a b)
  exact (parallel_perform hlib depth hcall s s' (.start hs heffects h ha hb hab)).sameEnd

/-- A call of a closure without parameters evaluates its body, two levels further down, in a new
environment with an empty frame. -/
theorem evaluate_parameterless (m : Machine) (depth : Nat) (i mark : Mark) (x : Value)
    (env home : EnvId) (isLazy : Bool) (s : Store) :
    m.evaluate (depth + 2) (.pair i (.closure mark [] x env isLazy) .nil) home s =
      m.evaluate depth x (s.newChild env ∅).1 (s.newChild env ∅).2 := by
  have henter : m.enter ⟨mark, [], x, env, isLazy⟩ .nil s =
      .ok ((s.newChild env ∅).1, true) (s.newChild env ∅).2 :=
    m.enter_of_fits (fun _ => ⟨rfl, rfl⟩) s
  have happly : m.perform (depth + 1) (.closure ⟨mark, [], x, env, isLazy⟩ .nil) s =
      m.evaluate depth x (s.newChild env ∅).1 (s.newChild env ∅).2 :=
    EvalM.bind_ok henter
  rw [← happly]
  cases isLazy <;> rfl

end Evaluation

/-- **The shape of the environment chain is unobservable.** Let natives be blind to the shape of
environments. In two environments of a store that see the same values under the same names, every
expression ends alike: both answers succeed or both fail, with the same value if that holds no
closure and no promise, or the same error is raised, and the same effects are left behind.

The same is true if an expression is evaluated in an environment and, on the other side, by calling
a closure over that environment that has no parameters. The call takes two levels of depth more, so
both end alike under every limit that leaves the expression enough depth and two levels. -/
theorem chain_shape_unobservable (m : Machine) (s : Store) (hs : s.Closed)
    (heffects : ∀ v ∈ s.effects, v.Within s.Has) (hlib : m.library.ShapeBlind s) (x : Value)
    (hx : x.Within s.Has) (depth : Nat) :
    (∀ e₁ e₂ : EnvId, s.Has (.env e₁) → s.Has (.env e₂) →
        (∀ name, s.lookup e₁ name = s.lookup e₂ name) →
        SameEnd s 0 (m.evaluate depth x e₁ s) (m.evaluate depth x e₂ s)) ∧
      ∀ (env home : EnvId) (i mark : Mark) (isLazy : Bool), s.Has (.env env) →
        SameEnd s 1 (m.evaluate depth x env s)
            (m.evaluate (depth + 2) (.pair i (.closure mark [] x env isLazy) .nil) home s) ∧
          (WithinDepth (m.evaluate depth x env s) → ∀ limit, depth + 2 ≤ limit →
            SameEnd s 1 (m.evaluate limit x env s)
              (m.evaluate limit (.pair i (.closure mark [] x env isLazy) .nil) home s)) := by
  refine ⟨fun e₁ e₂ h₁ h₂ hsame => ?_, fun env home i mark isLazy henv => ?_⟩
  · exact evaluate_sameEnd hs heffects hlib hx (.refl hs.scoped) (Nat.lt_of_not_le h₁)
      (Nat.lt_of_not_le h₂) (fun name => (hsame name).symm) depth
  · have hin : env.index < s.environments.size := Nat.lt_of_not_le henv
    have hchild : (s.newChild env ∅).1.index < (s.newChild env ∅).2.environments.size :=
      Store.lt_of_environment? (Store.environment?_newChild hin ∅)
    have hempty : ∀ name,
        (s.newChild env ∅).2.lookup (s.newChild env ∅).1 name = s.lookup env name :=
      fun name => Store.lookup_newChild env ∅ hs.scoped name
    have hcall : ∀ d, SameEnd s 1 (m.evaluate d x env s)
        (m.evaluate (d + 2) (.pair i (.closure mark [] x env isLazy) .nil) home s) := by
      intro d
      rw [evaluate_parameterless]
      exact evaluate_sameEnd hs heffects hlib hx (.newChild hs.scoped env) hin hchild hempty d
    -- with enough depth the expression ends as it does with two levels less
    refine ⟨hcall depth, fun hwithin limit hlimit => ?_⟩
    have hdeeper : ∀ d, depth ≤ d → m.evaluate d x env s = m.evaluate depth x env s := by
      intro d hd
      exact hwithin.eq_of_below
        (m.perform_below (E := (· = .tooDeep)) hd (.inl rfl) (Nat.le_refl m.links) (.inr rfl) _)
    obtain ⟨d, rfl⟩ : ∃ d, limit = d + 2 := ⟨limit - 2, by omega⟩
    rw [hdeeper (d + 2) (by omega), ← hdeeper d (by omega)]
    exact hcall d

/-! ## A sample -/

namespace Prelude

/-- The natives that are blind to the shape of environments. -/
def blindMachine : Machine := { machine with library := without shapeAware }

/-- The binding of the native that prints. -/
def printer : String × Value := ("tick", .native ⟨⟨0⟩, "tick", "tick", false⟩)

/-- The second environment lies inside the first and shadows a name of it. The third has the same
bindings in one frame. -/
def layered : Store where
  mappings := #[⟨[printer, ("x", .integer 5)]⟩, ⟨[("x", .integer 1)]⟩,
    ⟨[("x", .integer 1), printer]⟩]
  environments := #[⟨⟨0⟩, none⟩, ⟨⟨1⟩, some ⟨0⟩⟩, ⟨⟨2⟩, none⟩]
  marks := 1

/-- Prints the value of a name. -/
def printX : Value := form [.symbol "tick", .symbol "x"]

theorem layered_lookup (name : String) : layered.lookup ⟨1⟩ name = layered.lookup ⟨2⟩ name := by
  have hinner : layered.chain ⟨1⟩ = [⟨1⟩, ⟨0⟩] := rfl
  have hflat : layered.chain ⟨2⟩ = [⟨2⟩] := rfl
  have h₀ : layered.frame ⟨0⟩ = ⟨[printer, ("x", .integer 5)]⟩ := rfl
  have h₁ : layered.frame ⟨1⟩ = ⟨[("x", .integer 1)]⟩ := rfl
  have h₂ : layered.frame ⟨2⟩ = ⟨[("x", .integer 1), printer]⟩ := rfl
  simp only [Store.lookup, hinner, hflat, List.findSome?_cons, List.findSome?_nil, h₀, h₁, h₂,
    Bindings.find?, printer]
  grind [Bindings.findIn]

/-- The frames hold nothing that refers to the store. -/
theorem layered_atoms (id : MappingId) :
    ∀ e ∈ (layered.mapping id).entries, e.2.Within layered.Has := by
  obtain ⟨_ | _ | _ | i⟩ := id
  · show ∀ e ∈ [printer, ("x", Value.integer 5)], e.2.Within layered.Has
    simp [printer]
  · show ∀ e ∈ [("x", Value.integer 1)], e.2.Within layered.Has
    simp
  · show ∀ e ∈ [("x", Value.integer 1), printer], e.2.Within layered.Has
    simp [printer]
  · exact List.forall_mem_nil _

theorem layered_closed : layered.Closed where
  holds o o' h := by
    cases h with
    | @entry id name v o hm ho =>
      exact layered_atoms id _ hm _ ho
    | @frame env e he =>
      obtain ⟨_ | _ | _ | i⟩ := env <;> cases he <;> exact Nat.not_le.mpr (by decide)
    | @parent env outer hp =>
      obtain ⟨_ | _ | _ | i⟩ := env <;> cases hp
      exact Nat.not_le.mpr (by decide)
    | expression hp | captured hp | result hp => cases hp
  parent env outer hp := by
    obtain ⟨_ | _ | _ | i⟩ := env <;> cases hp
    decide

theorem layered_has_env (env : EnvId) (h : env.index < 3) : layered.Has (.env env) :=
  Nat.not_le.mpr h

theorem printX_within : printX.Within layered.Has := by
  simp [printX, form]

end Prelude

/-- A chain of two frames and a single frame: the value printed is the same, and so it is through a
closure. -/
theorem layered_unobservable :
    (Prelude.layered.Closed ∧ (∀ v ∈ Prelude.layered.effects, v.Within Prelude.layered.Has) ∧
      Prelude.blindMachine.library.ShapeBlind Prelude.layered ∧
      Prelude.printX.Within Prelude.layered.Has) ∧
      (Prelude.layered.depth ⟨1⟩ = 2 ∧ Prelude.layered.depth ⟨2⟩ = 1) ∧
      (∃ t, Prelude.blindMachine.evaluate 6 Prelude.printX ⟨2⟩ Prelude.layered =
        .ok (.success (.integer 1)) t ∧ t.effects = #[.integer 1]) ∧
      SameEnd Prelude.layered 1
        (Prelude.blindMachine.evaluate 6 Prelude.printX ⟨1⟩ Prelude.layered)
        (Prelude.blindMachine.evaluate 8
          (.pair ⟨0⟩ (.closure ⟨0⟩ [] Prelude.printX ⟨1⟩ false) .nil) ⟨0⟩ Prelude.layered) := by
  have heffects : ∀ v ∈ Prelude.layered.effects, v.Within Prelude.layered.Has := by
    simp [Prelude.layered]
  have hlib : Prelude.blindMachine.library.ShapeBlind Prelude.layered :=
    Prelude.without_shapeAware_shapeBlind Prelude.layered
  obtain ⟨hsame, hcall⟩ := chain_shape_unobservable Prelude.blindMachine Prelude.layered
    Prelude.layered_closed heffects hlib Prelude.printX Prelude.printX_within 6
  refine ⟨⟨Prelude.layered_closed, heffects, hlib, Prelude.printX_within⟩, ⟨rfl, rfl⟩, ?_,
    (hcall ⟨1⟩ ⟨0⟩ ⟨0⟩ ⟨0⟩ false (Prelude.layered_has_env _ (by decide))).1⟩
  have hend := hsame ⟨1⟩ ⟨2⟩ (Prelude.layered_has_env _ (by decide))
    (Prelude.layered_has_env _ (by decide)) Prelude.layered_lookup
  obtain ⟨t, hrun, hprinted⟩ : ∃ t, Prelude.blindMachine.evaluate 6 Prelude.printX ⟨1⟩
      Prelude.layered = .ok (.success (.integer 1)) t ∧ t.effects = #[.integer 1] := ⟨_, rfl, rfl⟩
  rw [hrun] at hend
  generalize Prelude.blindMachine.evaluate 6 Prelude.printX ⟨2⟩ Prelude.layered = r at hend ⊢
  cases hend with
  | @answered w a a' t t' hok hvalue hview =>
    have ha : a' = .success (.integer 1) := by
      have hv := hvalue.same (Value.within_integer 1)
      obtain ⟨v, ok⟩ := a'
      cases hok
      cases hv
      rfl
    refine ⟨t', by rw [ha], (hview.effects_eq ?_).trans hprinted⟩
    simp [hprinted]

end LispCore
