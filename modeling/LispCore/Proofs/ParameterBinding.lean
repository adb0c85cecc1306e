import LispCore.Proofs.Installing
import LispCore.Proofs.StrictArity

/-! # What a closure makes of its parameters

A closure that is applied gets an environment of its own inside the one it was made in. Its
frame has the names of the closure and no others, and each name has the argument at the
place where the name stands last, or nil if there are not so many arguments
(`Closure.find?_bindings`). How many arguments there are and how their list ends matters to
strict machines alone, which turn everything down but a proper list of one argument for each
name; the body is not evaluated then (`parameters_bound`). -/
namespace LispCore

namespace Bindings
variable {α : Type}

theorem find?_override_of_not_mem {entries : List (String × α)} {name : String}
    (h : name ∉ entries.map Prod.fst) (b : Bindings α) :
    (b.override entries).find? name = b.find? name := by
  have hnone : entries.reverse.find? (·.1 = name) = none := by
    refine List.find?_eq_none.mpr fun e he heq => h ?_
    rw [← of_decide_eq_true heq]
    exact List.mem_map_of_mem (List.mem_reverse.mp he)
  rw [find?_override, hnone]
  rfl

/-- Of the places where a name stands, the last one counts. -/
theorem find?_override_zip {names before after : List String} {name : String} {vs : List α}
    (h : names = before ++ name :: after) (hlast : name ∉ after)
    (hlength : names.length ≤ vs.length) (b : Bindings α) :
    (b.override (names.zip vs)).find? name = vs[before.length]? := by
  induction before generalizing names vs b with
  | nil =>
    cases vs with
    | nil => simp [h] at hlength
    | cons v vs =>
      subst h
      have hrest : name ∉ (after.zip vs).map Prod.fst := by
        intro hmem
        obtain ⟨e, he, rfl⟩ := List.mem_map.mp hmem
        exact hlast (List.of_mem_zip he).1
      change ((b.insert name v).override (after.zip vs)).find? name = _
      rw [find?_override_of_not_mem hrest]
      simp
  | cons other before ih =>
    cases vs with
    | nil => simp [h] at hlength
    | cons v vs =>
      subst h
      exact ih rfl (Nat.le_of_succ_le_succ hlength) (b.insert other v)

theorem mem_names_override {entries : List (String × α)} {b : Bindings α} {name : String} :
    name ∈ (b.override entries).names ↔ name ∈ b.names ∨ name ∈ entries.map Prod.fst := by
  induction entries generalizing b with
  | nil => simp [override]
  | cons e entries ih =>
    change name ∈ ((b.insert e.1 e.2).override entries).names ↔ _
    have hinsert : name ∈ (b.insert e.1 e.2).names ↔ name ∈ b.names ∨ name = e.1 := by
      rw [names_insert]
      split
      · next hold => exact ⟨.inl, fun h => h.elim id fun he => he ▸ hold⟩
      · simp
    rw [ih, hinsert, List.map_cons, List.mem_cons, or_assoc]

end Bindings

/-! ## The frame -/

theorem getElem?_padded {n k : Nat} (h : k < n) (args : List Value) :
    (padded n args)[k]? = some (args.getD k .nil) := by
  induction n generalizing k args with
  | zero => exact absurd h (Nat.not_lt_zero _)
  | succ n ih =>
    cases args with
    | nil =>
      rw [padded_nil]
      cases k with
      | zero => rfl
      | succ k => exact (ih (Nat.lt_of_succ_lt_succ h) []).trans (by simp)
    | cons v args =>
      rw [padded_cons]
      cases k with
      | zero => rfl
      | succ k => exact ih (Nat.lt_of_succ_lt_succ h) args

namespace Closure
variable {c : Closure} {params : Value}

theorem nodup_names_bindings : (c.bindings params).names.Nodup := by
  have hempty : (∅ : Bindings Value).names.Nodup := List.nodup_nil
  exact Bindings.nodup_override hempty _

theorem mem_names_bindings {name : String} :
    name ∈ (c.bindings params).names ↔ name ∈ c.params := by
  have hempty : name ∉ (∅ : Bindings Value).names := List.not_mem_nil
  have hlength := Nat.le_of_eq (length_padded c.params.length params.elements).symm
  have hnames : name ∈ (c.bindings params).names ↔ _ := Bindings.mem_names_override
  rw [hnames, List.map_fst_zip hlength, or_iff_right hempty]

/-- A name has the argument at its last place. -/
theorem find?_bindings {before after : List String} {name : String}
    (h : c.params = before ++ name :: after) (hlast : name ∉ after) :
    (c.bindings params).find? name = some (params.elements.getD before.length .nil) := by
  have hlength := Nat.le_of_eq (length_padded c.params.length params.elements).symm
  have hplace : before.length < c.params.length := by
    rw [h]
    simp
  rw [← getElem?_padded hplace]
  exact Bindings.find?_override_zip h hlast hlength ∅

end Closure

/-! ## The environment -/

namespace Store
variable {s : Store} (home : EnvId) (contents : Bindings Value)

theorem environment?_newChild_self :
    (s.newChild home contents).2.environment? (s.newChild home contents).1 =
      some ⟨⟨s.mappings.size⟩, if home.index < s.environments.size then some home else none⟩ :=
  (environment?_newEnvironment s _ contents _).trans (if_pos rfl)

theorem frame_newChild_self :
    (s.newChild home contents).2.frame (s.newChild home contents).1 = contents := by
  simp only [frame, environment?_newChild_self]
  exact (mapping_newMapping s contents _).trans (if_pos rfl)

theorem mapping_newChild_of_lt {id : MappingId} (hid : id.index < s.mappings.size) :
    (s.newChild home contents).2.mapping id = s.mapping id := by
  have hne : id ≠ (s.newMapping contents).1 := by
    intro heq
    rw [heq] at hid
    exact Nat.lt_irrefl _ hid
  exact (mapping_newMapping s contents id).trans (if_neg hne)

/-- A frame in the store stays what it is. -/
theorem frame_newChild_of_inside {other : EnvId} {e : Environment}
    (he : s.environment? other = some e) (hin : e.frame.index < s.mappings.size) :
    (s.newChild home contents).2.frame other = s.frame other := by
  have hsame := environment?_newChild_of_lt home contents (lt_of_environment? he)
  simp only [frame, hsame, he]
  exact mapping_newChild_of_lt home contents hin

end Store

/-- An environment with a frame of its own has been made for a call of a closure, and
everything else is what it was. -/
structure Entered (c : Closure) (params : Value) (s : Store) (env : EnvId) (t : Store) : Prop where
  fresh : s.environments.size ≤ env.index
  child : c.env.index < s.environments.size → t.parent? env = some c.env
  own : ∃ e, t.environment? env = some e ∧ s.mappings.size ≤ e.frame.index
  nodup : (t.frame env).names.Nodup
  names : ∀ name, name ∈ (t.frame env).names ↔ name ∈ c.params
  last : ∀ before name after, c.params = before ++ name :: after → name ∉ after →
    (t.frame env).find? name = some (params.elements.getD before.length .nil)
  environments : ∀ other, other ≠ env → t.environment? other = s.environment? other
  mappings : ∀ id : MappingId, id.index < s.mappings.size → t.mapping id = s.mapping id
  frames : ∀ other e, s.environment? other = some e → e.frame.index < s.mappings.size →
    t.frame other = s.frame other
  promises : t.promises = s.promises
  effects : t.effects = s.effects

namespace Entered
variable {c : Closure} {params : Value} {s t : Store} {env : EnvId}

theorem newChild (c : Closure) (params : Value) (s : Store) :
    Entered c params s (s.newChild c.env (c.bindings params)).1
      (s.newChild c.env (c.bindings params)).2 where
  fresh := Nat.le_refl _
  child hhome := by
    rw [Store.parent?, Store.environment?_newChild_self, if_pos hhome]
    rfl
  own := ⟨_, Store.environment?_newChild_self _ _, Nat.le_refl _⟩
  nodup := by
    rw [Store.frame_newChild_self]
    exact Closure.nodup_names_bindings
  names name := by
    rw [Store.frame_newChild_self]
    exact Closure.mem_names_bindings
  last before name after hparams hlast := by
    rw [Store.frame_newChild_self]
    exact Closure.find?_bindings hparams hlast
  environments other hne := (Store.environment?_newEnvironment s _ _ other).trans (if_neg hne)
  mappings id := Store.mapping_newChild_of_lt _ _
  frames other e := Store.frame_newChild_of_inside _ _
  promises := rfl
  effects := rfl

/-- A note changes none of this. -/
theorem note (h : Entered c params s env t) (level : Int) (r : Record) :
    Entered c params s env (t.note level r) := by
  unfold Store.note
  split
  · exact ⟨h.fresh, h.child, h.own, h.nodup, h.names, h.last, h.environments, h.mappings,
      h.frames, h.promises, h.effects⟩
  · exact h

end Entered

/-! ## The call -/

section Calls
variable {m : Machine} {c : Closure} {params : Value} {s t : Store} {env : EnvId}

/-- A call whose parameters are turned down fails with nothing called inside. -/
theorem traced_closure_rejected (h : m.enter c params s = .ok (env, false) t) (depth : Nat) :
    m.traced (depth + 1) (.closure c params) s =
      (.ok .failure t, [.mk (.closure c params) s (.ok .failure t) []]) := by
  have hstep : m.step depth (m.traced depth) (.closure c params) s = (.ok .failure t, []) := by
    change m.applyClosureWith (m.traced depth) c params s = _
    unfold Machine.applyClosureWith
    rw [TraceM.bind_ok (congrArg (·, []) h)]
    rfl
  simp only [Machine.traced, TraceM.enclose, hstep]
  rfl

/-- A call whose parameters are accepted evaluates the body, and nothing before it. -/
theorem traced_closure_accepted (h : m.enter c params s = .ok (env, true) t) (depth : Nat) :
    m.traced (depth + 1) (.closure c params) s =
      (m.evaluate depth c.body env t, (m.traced depth (.evaluate c.body env) t).2 ++
        [.mk (.closure c params) s (m.evaluate depth c.body env t)
          (m.traced depth (.evaluate c.body env) t).2]) := by
  have hstep : m.step depth (m.traced depth) (.closure c params) s =
      m.traced depth (.evaluate c.body env) t := by
    change m.applyClosureWith (m.traced depth) c params s = _
    unfold Machine.applyClosureWith
    rw [TraceM.bind_ok (congrArg (·, []) h)]
    rfl
  have hout : (m.traced depth (.evaluate c.body env) t).1 = m.evaluate depth c.body env t :=
    traced_fst m depth _ t
  simp only [Machine.traced, TraceM.enclose, hstep, hout]

end Calls

/-- **What a closure makes of its parameters.** It gets a new environment inside the one it
was made in, with a frame of its own that has exactly the names of the closure, each with
the argument at the last place of the name, or nil if there are not so many; no other
environment, frame, mapping or promise changes. A tolerant machine accepts all parameters, and
a strict one exactly the proper lists of one argument for each name. Accepted parameters have
the body evaluated in the new environment, with nothing evaluated before it; otherwise the call
fails and nothing is evaluated at all. -/
theorem parameters_bound (m : Machine) (c : Closure) (params : Value) (s : Store) :
    ∃ env ok t, m.enter c params s = .ok (env, ok) t ∧ Entered c params s env t ∧
      (m.strictArity = false → ok = true) ∧
      (m.strictArity = true →
        (ok = true ↔ params.ending = .nil ∧ params.elements.length = c.params.length)) ∧
      ∀ depth,
        (ok = true → m.applyClosure (depth + 1) c params s = m.evaluate depth c.body env t ∧
          (m.traced (depth + 1) (.closure c params) s).2 =
            (m.traced depth (.evaluate c.body env) t).2 ++
              [.mk (.closure c params) s (m.evaluate depth c.body env t)
                (m.traced depth (.evaluate c.body env) t).2]) ∧
        (ok = false → m.applyClosure (depth + 1) c params s = .ok .failure t ∧
          (m.traced (depth + 1) (.closure c params) s).2 =
            [.mk (.closure c params) s (.ok .failure t) []]) := by
  have happly : ∀ depth, m.applyClosure (depth + 1) c params s =
      (m.traced (depth + 1) (.closure c params) s).1 :=
    fun depth => (traced_fst m (depth + 1) (.closure c params) s).symm
  by_cases hfits : m.strictArity = true → c.Fits params
  · have henter := Machine.enter_of_fits hfits s
    refine ⟨_, true, _, henter, .newChild c params s, fun _ => rfl, fun hstrict => ?_,
      fun depth => ⟨fun _ => ?_, nofun⟩⟩
    · exact iff_of_true rfl (hfits hstrict)
    · have htraced := traced_closure_accepted henter depth
      exact ⟨(happly depth).trans (congrArg Prod.fst htraced), congrArg Prod.snd htraced⟩
  · obtain ⟨hstrict, hmisfit⟩ := Classical.not_imp.mp hfits
    have henter := Machine.enter_of_misfit hstrict hmisfit s
    refine ⟨_, false, _, henter, (Entered.newChild c params s).note _ _, fun htolerant => ?_,
      fun _ => iff_of_false nofun hmisfit, fun depth => ⟨nofun, fun _ => ?_⟩⟩
    · rw [hstrict] at htolerant
      cases htolerant
    · have htraced := traced_closure_rejected henter depth
      exact ⟨(happly depth).trans (congrArg Prod.fst htraced), congrArg Prod.snd htraced⟩

namespace Prelude

/-- A closure over an outermost environment with one name standing twice. -/
def repeating : Closure := ⟨⟨0⟩, ["x", "y", "x", "z"], .symbol "x", ⟨0⟩, false⟩

/-- Three arguments and an integer in place of the end. -/
def dottedParameters : Value :=
  .pair ⟨0⟩ (.integer 1) (.pair ⟨0⟩ (.integer 2) (.pair ⟨0⟩ (.integer 3) (.integer 4)))

/-- One environment with an empty frame. -/
def bare : Store where
  mappings := #[∅]
  environments := #[⟨⟨0⟩, none⟩]

end Prelude

/-- Of three arguments a name that stands first and third has the third, and a name that
stands fourth has nil. A tolerant machine goes on to the body, and a strict one fails. -/
theorem repeating_bound :
    (∃ env t, Prelude.machine.tolerant.enter Prelude.repeating Prelude.dottedParameters
        Prelude.bare = .ok (env, true) t ∧ t.parent? env = some ⟨0⟩ ∧
      (t.frame env).find? "x" = some (.integer 3) ∧ (t.frame env).find? "z" = some .nil ∧
      Prelude.machine.tolerant.applyClosure 5 Prelude.repeating Prelude.dottedParameters
        Prelude.bare = .ok (.success (.integer 3)) t) ∧
      ∃ t, Prelude.machine.strict.applyClosure 5 Prelude.repeating Prelude.dottedParameters
        Prelude.bare = .ok .failure t := by
  constructor
  · obtain ⟨env, ok, t, henter, hentered, hok, -, hcall⟩ := parameters_bound
      Prelude.machine.tolerant Prelude.repeating Prelude.dottedParameters Prelude.bare
    obtain rfl := hok rfl
    refine ⟨env, t, henter, hentered.child (by decide), ?_, ?_, ?_⟩
    · exact hentered.last ["x", "y"] "x" ["z"] rfl (by decide)
    · exact hentered.last ["x", "y", "x"] "z" [] rfl (by decide)
    · have hbody := ((hcall 4).1 rfl).1
      cases henter
      exact hbody.trans rfl
  · obtain ⟨env, ok, t, henter, -, -, hok, hcall⟩ := parameters_bound
      Prelude.machine.strict Prelude.repeating Prelude.dottedParameters Prelude.bare
    have hrejected : ok = false := by
      refine Bool.eq_false_iff.mpr fun htrue => ?_
      have hend : Prelude.dottedParameters.ending = .nil := ((hok rfl).mp htrue).1
      cases hend
    exact ⟨t, ((hcall 4).2 hrejected).1⟩

end LispCore
