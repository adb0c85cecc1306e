import LispCore.Proofs.Forest

/-! # What one write does to every lookup

A binding is written to the frame of one environment, and any number of others may be
inside that one. Which of them see the new value? Exactly those from which the way up
meets the written environment before any other that binds the name (`Store.Uncovered`).
All other lookups, from above, from beside, from behind a frame that shadows the name, or
for another name, find what they found before (`lookup_after_write`).

Frames are not shared, so the write changes one frame (`FramesApart.frame_bind`), and a
lookup goes up one link at a time (`ParentsOlder.lookup_inner`). The result follows by
induction on the way up. -/
namespace LispCore

namespace Store

/-- The frame of the environment binds the name. -/
def Binds (s : Store) (env : EnvId) (name : String) : Prop :=
  (s.frame env).contains name = true

instance (s : Store) (env : EnvId) (name : String) : Decidable (s.Binds env name) :=
  inferInstanceAs (Decidable (_ = true))

/-- The way up from `d` comes to `e`, and none of the environments before `e` binds the
name. -/
def Uncovered (s : Store) (d e : EnvId) (name : String) : Prop :=
  ∃ before after, s.Ascent d (before ++ e :: after) ∧ ∀ c ∈ before, ¬ s.Binds c name

variable {s : Store} {d e outer : EnvId} {name key : String}

theorem not_binds_iff : ¬ s.Binds d name ↔ (s.frame d).find? name = none := by
  simp [Binds, Bindings.contains]

/-! ## The environments on the way -/

namespace Ascent
variable {path : List EnvId} {x : Environment}

theorem head_eq {c : EnvId} (h : s.Ascent d (c :: path)) : c = d := by
  cases h <;> rfl

theorem tail_of_inner {c : EnvId} (h : s.Ascent d (c :: path)) (hx : s.environment? d = some x)
    (hp : x.parent = some outer) : s.Ascent outer path := by
  cases h with
  | outermost hx' hp' =>
    rw [hx] at hx'
    cases hx'
    rw [hp] at hp'
    cases hp'
  | inner hx' hp' hrest =>
    rw [hx] at hx'
    cases hx'
    rw [hp] at hp'
    cases hp'
    exact hrest

theorem mem_inside (h : s.Ascent d path) (he : e ∈ path) : e.index < s.environments.size := by
  induction h with
  | outermost hx =>
    obtain rfl := List.mem_singleton.mp he
    exact lt_of_environment? hx
  | inner hx _ _ ih =>
    rcases List.mem_cons.mp he with rfl | hmem
    · exact lt_of_environment? hx
    · exact ih hmem

end Ascent

namespace Uncovered
variable {x : Environment}

theorem here {path : List EnvId} (h : s.Ascent e path) : s.Uncovered e e name := by
  cases h with
  | outermost hx hp => exact ⟨[], [], .outermost hx hp, by simp⟩
  | inner hx hp hrest => exact ⟨[], _, .inner hx hp hrest, by simp⟩

/-- From an outermost environment no other one is met. -/
theorem eq_of_outermost (h : s.Uncovered d e name) (hx : s.environment? d = some x)
    (hp : x.parent = none) : d = e := by
  obtain ⟨before, after, hpath, -⟩ := h
  have halone := hpath.unique (.outermost hx hp)
  cases before with
  | nil => simpa using (congrArg List.head? halone).symm
  | cons c before => simp at halone

/-- From an inner environment another one is met if its own frame lets the name through and
the parent's way up meets it. -/
theorem inner_iff (hx : s.environment? d = some x) (hp : x.parent = some outer) (hne : d ≠ e) :
    s.Uncovered d e name ↔ ¬ s.Binds d name ∧ s.Uncovered outer e name := by
  constructor
  · rintro ⟨before, after, hpath, hfree⟩
    cases before with
    | nil => exact absurd hpath.head_eq.symm hne
    | cons c before =>
      obtain rfl := hpath.head_eq
      refine ⟨hfree c List.mem_cons_self, before, after, hpath.tail_of_inner hx hp, ?_⟩
      intro b hb
      exact hfree b (List.mem_cons_of_mem _ hb)
  · rintro ⟨hfree, before, after, hpath, hbefore⟩
    exact ⟨d :: before, after, .inner hx hp hpath, List.forall_mem_cons.mpr ⟨hfree, hbefore⟩⟩

end Uncovered

/-! ## The write -/

/-- A binding changes the frame that it is written to and no other. -/
theorem FramesApart.frame_bind (h : s.FramesApart) (henv : e.index < s.environments.size)
    (v : Value) (c : EnvId) :
    (s.bind e name v).frame c = if c = e then (s.frame c).insert name v else s.frame c := by
  have he : s.environment? e = some s.environments[e.index] := Array.getElem?_eq_getElem henv
  have hsame : (s.write s.environments[e.index].frame name v).environment? c =
      s.environment? c := rfl
  simp only [bind, he, frame, hsame]
  cases hc : s.environment? c with
  | none =>
    have hne : c ≠ e := by
      intro heq
      rw [heq, he] at hc
      cases hc
    simp [hne]
  | some x =>
    by_cases heq : c = e
    · subst heq
      rw [he] at hc
      cases hc
      simp [mapping_write, h.inside c _ he]
    · have hother : s.environments[e.index].frame ≠ x.frame := by
        intro hframe
        exact heq (h.apart e c _ _ he hc hframe).symm
      simp [mapping_write, heq, hother]

/-- What a frame has for a name after a write. -/
theorem FramesApart.find?_bind (h : s.FramesApart) (henv : e.index < s.environments.size)
    (v : Value) (c : EnvId) :
    ((s.bind e name v).frame c).find? key =
      if c = e ∧ name = key then some v else (s.frame c).find? key := by
  rw [h.frame_bind henv]
  by_cases hc : c = e <;> simp [hc]

/-! ## Lookups -/

theorem environment?_bind (s : Store) (e : EnvId) (name : String) (v : Value) (c : EnvId) :
    (s.bind e name v).environment? c = s.environment? c := by
  rw [environment?, environments_bind]
  rfl

theorem ParentsOlder.bind (h : s.ParentsOlder) (e : EnvId) (name : String) (v : Value) :
    (s.bind e name v).ParentsOlder :=
  (Matured.of_touched (.bind s e name v)).older h

section Lookup
variable {path : List EnvId} (ho : s.ParentsOlder) (ha : s.FramesApart)
  (henv : e.index < s.environments.size) (hd : s.Ascent d path) (v : Value)
include ho ha henv hd

/-- Where the written environment is uncovered the new value is found. -/
theorem lookup_bind_of_uncovered (h : s.Uncovered d e name) :
    (s.bind e name v).lookup d name = some v := by
  have ho' := ho.bind e name v
  induction hd with
  | outermost hx hp =>
    obtain rfl := h.eq_of_outermost hx hp
    rw [ho'.lookup_outermost ((environment?_bind ..).trans hx) hp, ha.find?_bind henv]
    simp
  | @inner d outer x path hx hp _ ih =>
    rw [ho'.lookup_inner ((environment?_bind ..).trans hx) hp, ha.find?_bind henv]
    by_cases hde : d = e
    · simp [hde]
    · obtain ⟨hfree, hrest⟩ := (Uncovered.inner_iff hx hp hde).mp h
      simp [hde, not_binds_iff.mp hfree, ih hrest]

/-- Everywhere else, and for every other name, what was found before is found. -/
theorem lookup_bind_of_covered (h : ¬ (key = name ∧ s.Uncovered d e name)) :
    (s.bind e name v).lookup d key = s.lookup d key := by
  have ho' := ho.bind e name v
  induction hd with
  | @outermost d x hx hp =>
    have hmissed : ¬ (d = e ∧ name = key) := by
      rintro ⟨rfl, rfl⟩
      exact h ⟨rfl, .here (.outermost hx hp)⟩
    rw [ho'.lookup_outermost ((environment?_bind ..).trans hx) hp, ho.lookup_outermost hx hp,
      ha.find?_bind henv, if_neg hmissed]
  | @inner d outer x path hx hp hrest ih =>
    have hmissed : ¬ (d = e ∧ name = key) := by
      rintro ⟨rfl, rfl⟩
      exact h ⟨rfl, .here (.inner hx hp hrest)⟩
    rw [ho'.lookup_inner ((environment?_bind ..).trans hx) hp, ho.lookup_inner hx hp,
      ha.find?_bind henv, if_neg hmissed]
    -- a frame that binds the name hides what is around it, before the write and after
    by_cases hbinds : s.Binds d key
    · obtain ⟨w, hw⟩ := Option.isSome_iff_exists.mp hbinds
      simp [hw]
    · rw [ih]
      rintro ⟨rfl, hopen⟩
      have hde : d ≠ e := by
        intro hde
        exact hmissed ⟨hde, rfl⟩
      exact h ⟨rfl, (Uncovered.inner_iff hx hp hde).mpr ⟨hbinds, hopen⟩⟩

end Lookup

/-! A place outside the store has no frames around it, and nothing is written there. -/

theorem lookup_of_outside (hd : ¬ d.index < s.environments.size) : s.lookup d key = none := by
  have hnone : s.environment? d = none := Array.getElem?_eq_none (Nat.le_of_not_lt hd)
  simp [lookup, chain, chainWithin, hnone]

theorem bind_of_outside (he : ¬ e.index < s.environments.size) (v : Value) :
    s.bind e name v = s := by
  have hnone : s.environment? e = none := Array.getElem?_eq_none (Nat.le_of_not_lt he)
  simp only [bind, hnone]

theorem lookup_bind_eq (ho : s.ParentsOlder) (ha : s.FramesApart) (v : Value)
    (h : ¬ (key = name ∧ s.Uncovered d e name)) :
    (s.bind e name v).lookup d key = s.lookup d key := by
  by_cases he : e.index < s.environments.size
  · by_cases hd : d.index < s.environments.size
    · exact lookup_bind_of_covered ho ha he (ho.ascent_chain hd) v h
    · rw [lookup_of_outside hd, lookup_of_outside]
      rwa [environments_bind]
  · rw [bind_of_outside he]

/-- Nothing is found exactly if no frame on the way up binds the name. -/
theorem ParentsOlder.lookup_eq_none_iff (ho : s.ParentsOlder) :
    s.lookup d key = none ↔ ∀ path, s.Ascent d path → ∀ c ∈ path, ¬ s.Binds c key := by
  by_cases hd : d.index < s.environments.size
  · have hpath := ho.ascent_chain hd
    rw [lookup, List.findSome?_eq_none_iff]
    simp only [← not_binds_iff]
    constructor
    · intro hfree path hpath'
      rwa [← hpath.unique hpath']
    · intro hfree
      exact hfree _ hpath
  · have houtside : ∀ path, ¬ s.Ascent d path := by
      intro path hpath
      exact hd hpath.inside
    simp [lookup_of_outside hd, houtside]

/-! ## Variables of a host -/

theorem get_of_some {name : VarName} {v : Value} (h : s.lookup d name.key = some v) :
    s.get d name = .success v := by
  simp only [get, h]

theorem get_eq_failure_iff {name : VarName} :
    s.get d name = .failure ↔ s.lookup d name.key = none := by
  cases hfound : s.lookup d name.key with
  | none => simp [get, hfound]
  | some v => simp [get, hfound, Answer.success, Answer.failure]

/-- The answer to a variable that stands for nothing is nil. -/
theorem get_failed_iff {name : VarName} :
    (s.get d name).ok = false ↔ s.get d name = .failure := by
  cases hfound : s.lookup d name.key with
  | none => simp [get, hfound, Answer.failure]
  | some v => simp [get, hfound, Answer.success, Answer.failure]

end Store

/-- In every store that a host comes to from an empty one parents are older and frames are
apart. -/
theorem HostSession.Visits.grown {session : List HostOperation} {host : Host} {t : Store}
    (ht : HostSession.Visits session host t) (hempty : host.store = .empty) :
    t.ParentsOlder ∧ t.FramesApart := by
  have hnone : host.store.ParentsOlder := by
    intro env outer h
    simp [hempty, Store.parent?, Store.environment?, Store.empty] at h
  have hforest := (Store.Forest.law host.store).visits ht (.refl hnone (hempty ▸ .empty))
  exact ⟨hforest.older, hforest.apart⟩

/-- **What one write does to every lookup.** Take any store that a host comes to from an
empty one, within a run or after it. When a variable is put in `e`, then `get` from `d`
answers the new value if it asks for that variable and `e` is met on the way up from `d`
before any other environment that binds it; in every other case it answers what it
answered before. Only the key of a name counts, not whether it is given as text or as a
symbol. A variable is contained in `d` if `get` succeeds, and `get` fails, with nil,
exactly if no environment on the way up binds the variable. -/
theorem lookup_after_write (host : Host) (hempty : host.store = .empty)
    (session : List HostOperation) (t : Store) (ht : HostSession.Visits session host t)
    (d e : EnvId) (n m : VarName) (v : Value) :
    (m.key = n.key → t.Uncovered d e n.key → (t.put e n v).get d m = .success v) ∧
      (¬ (m.key = n.key ∧ t.Uncovered d e n.key) → (t.put e n v).get d m = t.get d m) ∧
      (∀ key, t.put e (.symbol key) v = t.put e (.text key) v ∧
        t.get d (.symbol key) = t.get d (.text key)) ∧
      t.contains d m = (t.get d m).ok ∧
      (t.get d m = .failure ↔ ∀ path, t.Ascent d path → ∀ c ∈ path, ¬ t.Binds c m.key) ∧
      ((t.get d m).ok = false ↔ t.get d m = .failure) := by
  obtain ⟨ho, ha⟩ := ht.grown hempty
  refine ⟨?_, ?_, fun key => ⟨rfl, rfl⟩, rfl, ?_, Store.get_failed_iff⟩
  · intro hkey hopen
    obtain ⟨before, after, hpath, -⟩ := id hopen
    have henv := hpath.mem_inside (e := e) (by simp)
    apply Store.get_of_some
    rw [hkey]
    exact Store.lookup_bind_of_uncovered ho ha henv hpath v hopen
  · intro hcovered
    simp only [Store.get, Store.put, Store.lookup_bind_eq ho ha v hcovered]
  · rw [Store.get_eq_failure_iff, ho.lookup_eq_none_iff]

namespace Prelude

/-- Makes three environments inside one another and binds a name in the innermost. -/
def shadowing : List HostOperation :=
  nesting ++ [.evaluator (.request (.newChild ⟨1⟩)),
    .evaluator (.request (.bind ⟨2⟩ "x" (.integer 1)))]

end Prelude

/-- A name put in the outermost of three environments is seen from the middle one, and the
innermost, which binds it as well, still sees its own. -/
theorem shadowing_lookup :
    let t := (HostSession.after Prelude.shadowing Prelude.freshHost).store
    (Prelude.freshHost.store = .empty ∧
        HostSession.Visits Prelude.shadowing Prelude.freshHost t ∧
        t.Uncovered ⟨1⟩ ⟨0⟩ "x" ∧ ¬ t.Uncovered ⟨2⟩ ⟨0⟩ "x") ∧
      (t.put ⟨0⟩ (.symbol "x") (.integer 5)).get ⟨1⟩ (.text "x") = .success (.integer 5) ∧
      (t.put ⟨0⟩ (.symbol "x") (.integer 5)).get ⟨2⟩ (.text "x") = .success (.integer 1) := by
  intro t
  have hvisits : HostSession.Visits Prelude.shadowing Prelude.freshHost t := .inl rfl
  have houter : t.environment? ⟨0⟩ = some ⟨⟨0⟩, none⟩ := rfl
  have hmiddle : t.environment? ⟨1⟩ = some ⟨⟨1⟩, some ⟨0⟩⟩ := rfl
  have hinner : t.environment? ⟨2⟩ = some ⟨⟨2⟩, some ⟨1⟩⟩ := rfl
  have hopen : t.Uncovered ⟨1⟩ ⟨0⟩ "x" := by
    rw [Store.Uncovered.inner_iff hmiddle rfl (by decide)]
    exact ⟨by decide +kernel, .here (.outermost houter rfl)⟩
  have hcovered : ¬ t.Uncovered ⟨2⟩ ⟨0⟩ "x" := by
    rw [Store.Uncovered.inner_iff hinner rfl (by decide)]
    intro h
    exact h.1 (by decide +kernel)
  refine ⟨⟨rfl, hvisits, hopen, hcovered⟩, ?_, ?_⟩
  · exact (lookup_after_write Prelude.freshHost rfl Prelude.shadowing t hvisits ⟨1⟩ ⟨0⟩
      (.symbol "x") (.text "x") (.integer 5)).1 rfl hopen
  · have hsame := (lookup_after_write Prelude.freshHost rfl Prelude.shadowing t hvisits ⟨2⟩ ⟨0⟩
      (.symbol "x") (.text "x") (.integer 5)).2.1 (fun h => hcovered h.2)
    rw [hsame]
    rfl

end LispCore
