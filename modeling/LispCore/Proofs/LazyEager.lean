import LispCore.Proofs.Adequacy
import LispCore.Proofs.Deferred
import LispCore.Proofs.Facade
import LispCore.Proofs.Scope

/-! # Lazy and eager closures

A closure that defers its arguments and one that evaluates them give the same answer, once
the answer is forced, as long as body and arguments stay in a fragment in which every
argument is only ever read by its value (`lazy_agrees_with_eager`). The fragment has
integers, names, and calls of eager natives that force the parameters they look at, answer
with something that depends on these values alone, and neither raise nor write.

An expression of the fragment means the same answer wherever its names stand for the same
values (`Fragment.means`). What a name is bound to stands for a value if it is that value,
or if it is a promise of it: promises go unforced through names, lists of arguments and
answers, and come to light in natives and at the end. What is needed of the stores of a
run and of what stands for values in them is a `Scene`, and each way of calling the
closure is one. -/
namespace LispCore

/-! ## Values up to the identity of pairs and arrays -/

namespace Value

mutual

/-- The value with one mark on all pairs and arrays in it. -/
def unmarked : Value → Value
  | .pair _ first rest => .pair ⟨0⟩ first.unmarked rest.unmarked
  | .array _ items => .array ⟨0⟩ (unmarkedItems items)
  | v => v

def unmarkedItems : List Value → List Value
  | [] => []
  | v :: vs => v.unmarked :: unmarkedItems vs

end

/-- The same value, up to the identity of the pairs and arrays in it. -/
def Same (v w : Value) : Prop := v.unmarked = w.unmarked

theorem Same.refl (v : Value) : v.Same v := rfl

theorem Same.symm {v w : Value} (h : v.Same w) : w.Same v := Eq.symm h

theorem Same.trans {u v w : Value} (h : u.Same v) (h' : v.Same w) : u.Same w := Eq.trans h h'

theorem tag_unmarked (v : Value) : v.unmarked.tag = v.tag := by
  cases v <;> rfl

theorem Same.tag {v w : Value} (h : v.Same w) : v.tag = w.tag := by
  rw [← tag_unmarked v, h, tag_unmarked]

end Value

/-! ## Natives that read their parameters by value -/

/-- Two scripts that look at the parameters in the same places, only by their values, and
go on alike from values that are the same. They may make marks and show values outside. They
end with answers that are the same and no promise. -/
inductive ReadsAlike (vs vs' : List Value) : Script Answer → Script Answer → Prop
  | done {a a' : Answer} : a.ok = a'.ok → a.value.Same a'.value → a.value.tag ≠ .promise →
      ReadsAlike vs vs' (.done a) (.done a')
  | value {k : Nat} {v v' : Value} {next next' : Value → Script Answer} :
      vs[k]? = some v → vs'[k]? = some v' →
      (∀ w w' : Value, w.Same w' → w.tag ≠ .promise → ReadsAlike vs vs' (next w) (next' w')) →
      ReadsAlike vs vs' (Script.value v >>= next) (Script.value v' >>= next')
  | newMark {next next' : Mark → Script Answer} :
      (∀ mark mark', ReadsAlike vs vs' (next mark) (next' mark')) →
      ReadsAlike vs vs' (.ask .newMark next) (.ask .newMark next')
  | emit {v v' : Value} {next next' : Unit → Script Answer} : v.Same v' →
      ReadsAlike vs vs' (next ()) (next' ()) →
      ReadsAlike vs vs' (.ask (.emit v) next) (.ask (.emit v') next')

/-- The routine reads its parameters by their values alone, wherever it is called. -/
def Routine.ReadsValues (r : Routine) : Prop :=
  ∀ params params' env env', params.ending = .nil → params'.ending = .nil →
    params.elements.length = params'.elements.length →
    ReadsAlike params.elements params'.elements (r params env) (r params' env')

/-- The expressions of the fragment. A name is a parameter or is not bound to a promise;
the head of a call is no parameter and is bound to an eager native that reads values. -/
inductive Fragment (library : Library) (look : String → Option Value) (params : List String) :
    Value → Prop
  | integer (n : Int) : Fragment library look params (.integer n)
  | param {name : String} : name ∈ params → Fragment library look params (.symbol name)
  | other {name : String} : name ∉ params → (∀ id, look name ≠ some (.promise id)) →
      Fragment library look params (.symbol name)
  | call {mark : Mark} {name : String} {p : Native} {args : Value} : name ∉ params →
      look name = some (.native p) → p.isLazy = false → (library p.routine).ReadsValues →
      args.ending = .nil → (∀ e ∈ args.elements, Fragment library look params e) →
      Fragment library look params (.pair mark (.symbol name) args)

/-! ## What the answer of a native depends on -/

/-- The answer of a script that finds values where it forces. -/
def Script.onValues : Script Answer → Answer
  | .done a => a
  | .ask (.force v) next => (next (.success v)).onValues
  | .ask .newMark next => (next ⟨0⟩).onValues
  | .ask (.emit _) next => (next ()).onValues
  | _ => .failure

theorem Script.onValues_value (v : Value) (next : Value → Script Answer) :
    (Script.value v >>= next).onValues = (next v).onValues := rfl

theorem ReadsAlike.tag_onValues {vs us : List Value} {x y : Script Answer}
    (h : ReadsAlike vs us x y) (hus : ∀ u ∈ us, u.tag ≠ .promise) :
    y.onValues.value.tag ≠ .promise := by
  induction h with
  | done _ hsame htag =>
    rw [hsame.tag] at htag
    exact htag
  | @value k v u next next' _ hu _ ih =>
    rw [Script.onValues_value]
    exact ih u u rfl (hus u (List.mem_of_getElem? hu))
  | newMark _ ih => exact ih ⟨0⟩ ⟨0⟩
  | emit _ _ ih => exact ih

/-! ## Scenes -/

/-- What evaluation in the fragment does to a store in `I` leads to such stores again. -/
structure Enduring (m : Machine) (I : Store → Prop) : Prop where
  note {s : Store} (source : Source) (text : String) : I s → I (m.noted source text s)
  newMark {s : Store} : I s → I s.newMark.2
  emit {s : Store} (v : Value) : I s → I (s.emit v)

/-- Stores in `I`, in which `S v u` says that `v` stands for the value `u`: forcing `v`
gives `u`. -/
structure Stage (m : Machine) (I : Store → Prop) (S : Value → Value → Prop) : Prop
    extends Enduring m I where
  same {v u : Value} : v.Same u → v.tag ≠ .promise → S v u
  force {v u : Value} {s : Store} : S v u → I s → ∃ v' t,
    Derives m Shows (.resolve v) s (.success v') t ∧ I t ∧ v'.Same u ∧ v'.tag ≠ .promise

/-- A stage with an environment in which parameters stand for the values `vals` and other
names are bound as `look` says. -/
structure Scene (m : Machine) (look : String → Option Value) (params : List String)
    (vals : String → Value) (env : EnvId) (I : Store → Prop) (S : Value → Value → Prop) : Prop
    extends Stage m I S where
  param {name : String} {s : Store} : name ∈ params → I s →
    ∃ v, s.lookup env name = some v ∧ S v (vals name)
  other {name : String} {s : Store} : name ∉ params → I s → s.lookup env name = look name

/-- The answer `b` stands for the answer `a`. -/
structure StandsFor (S : Value → Value → Prop) (b a : Answer) : Prop where
  ok : b.ok = a.ok
  value : a.ok = true → S b.value a.value
  failed : a.ok = false → b.value.Same a.value

section Meaning
variable (m : Machine) (look : String → Option Value) (params : List String)
  (vals : String → Value)

/-- In every scene the expression answers with something that stands for `a`. -/
def Means (e : Value) (a : Answer) : Prop :=
  a.value.tag ≠ .promise ∧ ∀ env I S, Scene m look params vals env I S → ∀ s, I s →
    ∃ b t, Derives m Shows (.call (.evaluate e env)) s b t ∧ I t ∧ StandsFor S b a

/-- In every scene the arguments have values that stand for `us`. -/
def MeansList (args : Value) (us : List Value) : Prop :=
  (∀ u ∈ us, u.tag ≠ .promise) ∧ ∀ env I S, Scene m look params vals env I S → ∀ s, I s →
    ∃ v t, Derives m Shows (.call (.arguments args env)) s (.success v) t ∧ I t ∧ v.ending = .nil ∧
      List.Forall₂ S v.elements us

/-- In every scene the arguments fail. -/
def FailsList (args : Value) : Prop :=
  ∀ env I S, Scene m look params vals env I S → ∀ s, I s →
    ∃ t, Derives m Shows (.call (.arguments args env)) s .failure t ∧ I t

variable {m look params vals}

theorem means_integer (n : Int) :
    Means m look params vals (.integer n) (.success (.integer n)) := by
  refine ⟨nofun, fun env I S scene s hs => ?_⟩
  refine ⟨_, s, .itself nofun nofun nofun, hs, rfl, fun _ => ?_, nofun⟩
  exact scene.same rfl nofun

theorem means_param {name : String} (h : name ∈ params)
    (hvals : ∀ name, (vals name).tag ≠ .promise) :
    Means m look params vals (.symbol name) (.success (vals name)) := by
  refine ⟨hvals name, fun env I S scene s hs => ?_⟩
  obtain ⟨v, hv, hS⟩ := scene.param h hs
  exact ⟨_, s, .bound hv, hs, rfl, fun _ => hS, nofun⟩

theorem means_other {name : String} (h : name ∉ params)
    (hlook : ∀ id, look name ≠ some (.promise id)) :
    ∃ a, Means m look params vals (.symbol name) a := by
  cases hv : look name with
  | none =>
    refine ⟨.failure, nofun, fun env I S scene s hs => ?_⟩
    have hnone := (scene.other h hs).trans hv
    exact ⟨_, _, .unbound hnone, scene.note _ _ hs, rfl, nofun, fun _ => .refl _⟩
  | some v =>
    have htag : v.tag ≠ .promise := by
      intro htag
      cases v with
      | promise id => exact hlook id hv
      | _ => cases htag
    refine ⟨.success v, htag, fun env I S scene s hs => ?_⟩
    have hsome := (scene.other h hs).trans hv
    exact ⟨_, s, .bound hsome, hs, rfl, fun _ => scene.same (.refl v) htag, nofun⟩

/-- Arguments that succeed have the values that they mean. -/
theorem means_arguments {ans : Value → Answer} {args : Value} (hproper : args.ending = .nil)
    (h : ∀ e ∈ args.elements, Means m look params vals e (ans e))
    (hok : ∀ e ∈ args.elements, (ans e).ok = true) :
    MeansList m look params vals args (args.elements.map fun e => (ans e).value) := by
  induction args using Value.elements.induct with
  | case1 mark first rest ih =>
    obtain ⟨htag, hfirst⟩ := h first List.mem_cons_self
    have hfirstOk := hok first List.mem_cons_self
    obtain ⟨htags, hrest⟩ := ih hproper (fun e he => h e (List.mem_cons_of_mem _ he))
      fun e he => hok e (List.mem_cons_of_mem _ he)
    refine ⟨?_, fun env I S scene s hs => ?_⟩
    · intro u hu
      rcases List.mem_cons.mp hu with rfl | hu
      · exact htag
      · exact htags u hu
    · obtain ⟨b, t, hb, ht, hstands⟩ := hfirst env I S scene s hs
      obtain ⟨v, t', hv, ht', hending, hall⟩ := hrest env I S scene t ht
      exact ⟨_, _, .argument hb (hstands.ok.trans hfirstOk) hv rfl, scene.newMark ht', hending,
        .cons (hstands.value hfirstOk) hall⟩
  | case2 v hv =>
    cases v with
    | nil =>
      exact ⟨fun u hu => absurd hu (List.not_mem_nil),
        fun env I S _ s hs => ⟨.nil, s, .noArguments, hs, rfl, .nil⟩⟩
    | pair => exact absurd rfl (hv _ _ _)
    | _ => cases hproper

/-- One argument that fails makes all fail. -/
theorem fails_arguments {ans : Value → Answer} {args : Value}
    (h : ∀ e ∈ args.elements, Means m look params vals e (ans e))
    (hfails : ∃ e ∈ args.elements, (ans e).ok = false) : FailsList m look params vals args := by
  induction args using Value.elements.induct with
  | case1 mark first rest ih =>
    intro env I S scene s hs
    obtain ⟨b, t, hb, ht, hstands⟩ := (h first List.mem_cons_self).2 env I S scene s hs
    cases hok : (ans first).ok with
    | false => exact ⟨t, .argumentFails hb (hstands.ok.trans hok), ht⟩
    | true =>
      have hrest : ∃ e ∈ rest.elements, (ans e).ok = false := by
        obtain ⟨e, he, hfalse⟩ := hfails
        rcases List.mem_cons.mp he with rfl | he
        · rw [hok] at hfalse
          cases hfalse
        · exact ⟨e, he, hfalse⟩
      obtain ⟨t', ht', hI⟩ :=
        ih (fun e he => h e (List.mem_cons_of_mem _ he)) hrest env I S scene t ht
      exact ⟨t', .argumentsFail hb (hstands.ok.trans hok) ht' rfl, hI⟩
  | case2 v hv =>
    obtain ⟨e, he, _⟩ := hfails
    cases v with
    | pair => exact absurd rfl (hv _ _ _)
    | _ => cases he

/-- A script that reads values answers as it does on the values that its parameters stand
for. -/
theorem ReadsAlike.derives {vs us : List Value} {x y : Script Answer} (h : ReadsAlike vs us x y)
    {env : EnvId} {I : Store → Prop} {S : Value → Value → Prop}
    (scene : Scene m look params vals env I S) (hall : List.Forall₂ S vs us) {s : Store}
    (hs : I s) :
    ∃ b t, Derives m Shows (.script x) s b t ∧ I t ∧ b.ok = y.onValues.ok ∧
      b.value.Same y.onValues.value ∧ b.value.tag ≠ .promise := by
  induction h generalizing s with
  | done hok hsame htag => exact ⟨_, s, .done, hs, hok, hsame, htag⟩
  | @value k v u next next' hv hu _ ih =>
    have hS : S v u := by
      obtain ⟨hk, rfl⟩ := List.getElem?_eq_some_iff.mp hv
      obtain ⟨hk', rfl⟩ := List.getElem?_eq_some_iff.mp hu
      exact List.forall₂_iff_get.mp hall |>.2 k hk hk'
    obtain ⟨w, t, hw, ht, hsame, htag⟩ := scene.force hS hs
    obtain ⟨b, t', hb, ht', hrest⟩ := ih w u hsame htag ht
    exact ⟨b, t', .askForce hw hb, ht', hrest⟩
  | newMark _ ih =>
    obtain ⟨b, t, hb, ht, hrest⟩ := ih s.newMark.1 ⟨0⟩ (scene.newMark hs)
    exact ⟨b, t, .act (.newMark s) hb, ht, hrest⟩
  | @emit v _ _ _ _ _ ih =>
    obtain ⟨b, t, hb, ht, hrest⟩ := ih (scene.emit v hs)
    exact ⟨b, t, .act (.emit v s) hb, ht, hrest⟩

/-- **An expression of the fragment means an answer**, the same in all scenes. -/
theorem Fragment.means (hvals : ∀ name, (vals name).tag ≠ .promise) {e : Value}
    (h : Fragment m.library look params e) : ∃ a, Means m look params vals e a := by
  induction h with
  | integer n => exact ⟨_, means_integer n⟩
  | param hmem => exact ⟨_, means_param hmem hvals⟩
  | other hnot hlook => exact means_other hnot hlook
  | @call mark name p args hnot hbound heager hreads hproper _ ih =>
    have : Nonempty Answer := ⟨.failure⟩
    choose! ans hans using ih
    have hhead : ∀ {env I S}, Scene m look params vals env I S → ∀ {s}, I s →
        Derives m Shows (.call (.evaluate (.symbol name) env)) s (.success (.native p)) s :=
      fun scene _ hs => .bound ((scene.other hnot hs).trans hbound)
    by_cases hok : ∀ e ∈ args.elements, (ans e).ok = true
    · obtain ⟨htags, hargs⟩ := means_arguments hproper hans hok
      -- the answer is that of the native on the values themselves
      have hlist := Value.properElements_eq_ok_iff.mp
        (Store.properElements_newList Store.empty (args.elements.map fun e => (ans e).value))
      generalize (Store.empty.newList _).1 = plain at hlist
      obtain ⟨hplain, hus⟩ := hlist
      rw [← hus] at htags
      have hself := hreads plain plain ⟨0⟩ ⟨0⟩ hplain hplain rfl
      refine ⟨(m.library p.routine plain ⟨0⟩).onValues, hself.tag_onValues htags, ?_⟩
      intro env I S scene s hs
      obtain ⟨v, t, hv, ht, hending, hall⟩ := hargs env I S scene s hs
      rw [← hus] at hall
      have hscript := hreads v plain env ⟨0⟩ hending hplain hall.length_eq
      obtain ⟨b, t', hb, ht', hsameOk, hsame, htag⟩ := hscript.derives scene hall ht
      have hstands : StandsFor S b (m.library p.routine plain ⟨0⟩).onValues :=
        ⟨hsameOk, fun _ => scene.same hsame htag, fun _ => hsame⟩
      cases hbok : b.ok with
      | true =>
        exact ⟨b, t', .apply (hhead scene hs) rfl (.eagerNative heager hv rfl (.native hb hbok)),
          ht', hstands⟩
      | false =>
        exact ⟨b, _,
          .apply (hhead scene hs) rfl (.eagerNative heager hv rfl (.nativeFails hb hbok)),
          scene.note _ _ ht', hstands⟩
    · refine ⟨.failure, nofun, fun env I S scene s hs => ?_⟩
      have hfails : ∃ e ∈ args.elements, (ans e).ok = false := by simpa using hok
      obtain ⟨t, ht, hI⟩ := fails_arguments hans hfails env I S scene s hs
      exact ⟨_, t, .apply (hhead scene hs) rfl (.nativeUnmet heager ht rfl), hI, rfl, nofun,
        fun _ => .refl _⟩

end Meaning

/-! ## Parameters -/

section Parameters
variable {S : Value → Value → Prop}

theorem forall₂_padded (hnil : S .nil .nil) {vs us : List Value} (h : List.Forall₂ S vs us)
    (n : Nat) : List.Forall₂ S (padded n vs) (padded n us) := by
  induction n generalizing vs us with
  | zero => simp [padded]
  | succ n ih =>
    cases h with
    | nil =>
      rw [padded_nil]
      exact .cons hnil (ih .nil)
    | cons hv hall =>
      rw [padded_cons, padded_cons]
      exact .cons hv (ih hall)

/-- Bindings made of values that stand for others stand for theirs. -/
theorem find?_foldl_rel (names : List String) {xs ys : List Value} (h : List.Forall₂ S xs ys)
    {b c : Bindings Value} (hbc : ∀ name, Option.Rel S (b.find? name) (c.find? name))
    (name : String) :
    Option.Rel S (((names.zip xs).foldl (fun b e => b.insert e.1 e.2) b).find? name)
      (((names.zip ys).foldl (fun b e => b.insert e.1 e.2) c).find? name) := by
  induction names generalizing xs ys b c with
  | nil => exact hbc name
  | cons key names ih =>
    cases h with
    | nil => exact hbc name
    | cons hv hall =>
      refine ih hall fun other => ?_
      simp only [Bindings.find?_insert]
      split
      · exact .some hv
      · exact hbc other

theorem find?_ofList_rel (names : List String) {xs ys : List Value} (h : List.Forall₂ S xs ys)
    (name : String) :
    Option.Rel S ((Bindings.ofList (names.zip xs)).find? name)
      ((Bindings.ofList (names.zip ys)).find? name) :=
  find?_foldl_rel names h (b := ∅) (c := ∅) (fun _ => .none) name

theorem rel_getD {x y : Option Value} (h : Option.Rel S x y) (hx : x ≠ none) :
    ∃ w, x = some w ∧ S w (y.getD .nil) := by
  cases h with
  | none => exact absurd rfl hx
  | some hS => exact ⟨_, rfl, hS⟩

theorem find?_foldl_eq_none (names : List String) {xs : List Value}
    (hlength : xs.length = names.length) (b : Bindings Value) (name : String) :
    ((names.zip xs).foldl (fun b e => b.insert e.1 e.2) b).find? name = none ↔
      b.find? name = none ∧ name ∉ names := by
  induction names generalizing xs b with
  | nil => simp
  | cons key names ih =>
    cases xs with
    | nil => cases hlength
    | cons v xs =>
      rw [List.zip_cons_cons, List.foldl_cons, ih (Nat.succ.inj hlength)]
      simp only [Bindings.find?_insert, List.mem_cons, not_or]
      by_cases hkey : key = name
      · simp [hkey]
      · simp [hkey, Ne.symm hkey]

/-- What a closure binds its names to, if its arguments have the values `us`. -/
def Closure.valueOf (c : Closure) (us : List Value) (name : String) : Value :=
  ((Bindings.ofList (c.params.zip (padded c.params.length us))).find? name).getD .nil

namespace Closure
variable (c : Closure)

theorem bindings_eq_none_iff (v : Value) (name : String) :
    (c.bindings v).find? name = none ↔ name ∉ c.params := by
  have h := find?_foldl_eq_none c.params (length_padded c.params.length v.elements) ∅ name
  exact h.trans (and_iff_right rfl)

theorem bindings_param (hnil : S .nil .nil) {v : Value} {us : List Value}
    (h : List.Forall₂ S v.elements us) {name : String} (hname : name ∈ c.params) :
    ∃ w, (c.bindings v).find? name = some w ∧ S w (c.valueOf us name) := by
  have hsome := (c.bindings_eq_none_iff v name).not.mpr (not_not_intro hname)
  exact rel_getD (find?_ofList_rel c.params (forall₂_padded hnil h c.params.length) name) hsome

theorem tag_valueOf {us : List Value} (h : ∀ u ∈ us, u.tag ≠ .promise) (name : String) :
    (c.valueOf us name).tag ≠ .promise := by
  have hus : List.Forall₂ (fun _ u : Value => u.tag ≠ .promise) us us :=
    List.forall₂_same.mpr h
  have hrel := find?_ofList_rel c.params (forall₂_padded nofun hus c.params.length) name
  unfold valueOf
  generalize Bindings.find? _ name = found at hrel
  cases hrel with
  | none => exact nofun
  | some htag => exact htag

theorem fits_iff {v : Value} {us : List Value} (hending : v.ending = .nil)
    (h : List.Forall₂ S v.elements us) : c.Fits v ↔ us.length = c.params.length := by
  rw [Fits, h.length_eq]
  exact and_iff_right hending

end Closure

end Parameters

/-! ## Calls -/

/-- The frames of the store are those of another. -/
structure Store.SameFrames (s t : Store) : Prop where
  mappings : t.mappings = s.mappings
  environments : t.environments = s.environments

theorem Store.SameFrames.refl (s : Store) : s.SameFrames s := ⟨rfl, rfl⟩

theorem Store.SameFrames.scoped {s t : Store} (h : s.SameFrames t) (hs : s.Scoped) : t.Scoped := by
  refine ⟨fun env e he => ?_, fun env outer houter => ?_⟩
  · rw [Store.environment?, h.environments] at he
    rw [h.mappings]
    exact hs.frame env e he
  · rw [Store.parent?, Store.environment?, h.environments] at houter
    exact hs.parent env outer houter

theorem Store.SameFrames.lookup {s t : Store} (h : s.SameFrames t) (env : EnvId) (name : String) :
    t.lookup env name = s.lookup env name :=
  Store.lookup_congr h.mappings h.environments env name

theorem Store.SameFrames.noted {s t : Store} (h : s.SameFrames t) (m : Machine) (source : Source)
    (text : String) : s.SameFrames (m.noted source text t) := by
  unfold Machine.noted Store.note
  split
  · exact ⟨h.mappings, h.environments⟩
  · exact h

section Calls
variable {m : Machine} {I : Store → Prop} {S : Value → Value → Prop}

/-- The answer of a call with `n` arguments: `a`, unless their number is refused. -/
def Closure.answer (m : Machine) (c : Closure) (n : Nat) (a : Answer) : Answer :=
  if m.strictArity = true → n = c.params.length then a else .failure

/-- Applying a closure to parameters that stand for the values `us`: unless their number is
refused, the body answers what it means when its names have these values. -/
theorem derives_closure (stage : Stage m I S) {c : Closure} {v : Value} {us : List Value}
    {look : String → Option Value} {a : Answer} {t : Store}
    (hmeans : Means m look c.params (c.valueOf us) c.body a) (hending : v.ending = .nil)
    (hall : List.Forall₂ S v.elements us) (hscoped : t.Scoped)
    (hlook : ∀ name, t.lookup c.env name = look name)
    (hframes : ∀ s, I s → (t.newChild c.env (c.bindings v)).2.SameFrames s)
    (hstart : I (t.newChild c.env (c.bindings v)).2) :
    ∃ b u, Derives m Shows (.call (.closure c v)) t b u ∧ I u ∧
      StandsFor S b (c.answer m us.length a) := by
  have hfits := c.fits_iff hending hall
  by_cases hnumber : m.strictArity = true → us.length = c.params.length
  · have hnil : S .nil .nil := stage.same (.refl _) nofun
    have hlookup : ∀ s name, I s → s.lookup (t.newChild c.env (c.bindings v)).1 name =
        ((c.bindings v).find? name).or (look name) := by
      intro s name hs
      rw [(hframes s hs).lookup, Store.lookup_newChild c.env (c.bindings v) hscoped, hlook]
    have scene : Scene m look c.params (c.valueOf us) (t.newChild c.env (c.bindings v)).1 I S := by
      refine ⟨stage, fun {name s} hname hs => ?_, fun {name s} hname hs => ?_⟩
      · obtain ⟨w, hw, hS⟩ := c.bindings_param hnil hall hname
        refine ⟨w, ?_, hS⟩
        rw [hlookup s name hs, hw]
        rfl
      · rw [hlookup s name hs, (c.bindings_eq_none_iff v name).mpr hname]
        rfl
    obtain ⟨b, u, hb, hu, hstands⟩ := hmeans.2 _ I S scene _ hstart
    rw [Closure.answer, if_pos hnumber]
    exact ⟨b, u, .body (fun hstrict => hfits.mpr (hnumber hstrict)) hb, hu, hstands⟩
  · obtain ⟨hstrict, hlength⟩ := Classical.not_imp.mp hnumber
    rw [Closure.answer, if_neg hnumber]
    exact ⟨.failure, _, .misfit hstrict (hfits.not.mpr hlength), stage.note _ _ hstart, rfl, nofun,
      fun _ => .refl _⟩

/-! ## Evaluated arguments -/

/-- The value stands for itself. -/
structure IsValue (v u : Value) : Prop where
  same : v.Same u
  tag : v.tag ≠ .promise

theorem Enduring.plain (h : Enduring m I) : Stage m I IsValue where
  toEnduring := h
  same := .mk
  force {v _ s} hv hs := ⟨v, s, .resolved hv.tag, hs, hv.same, hv.tag⟩

theorem enduring_sameFrames (s : Store) : Enduring m s.SameFrames where
  note source text h := h.noted m source text
  newMark h := ⟨h.mappings, h.environments⟩
  emit _ h := ⟨h.mappings, h.environments⟩

/-- A scene without parameters. -/
theorem Stage.scene (h : Stage m I S) {look : String → Option Value} {vals : String → Value}
    {env : EnvId} (hlook : ∀ s name, I s → s.lookup env name = look name) :
    Scene m look [] vals env I S :=
  ⟨h, fun hname => absurd hname List.not_mem_nil, fun _ hs => hlook _ _ hs⟩

/-! ## Deferred arguments -/

/-- The promises that `first` has for the arguments `es` are waiting, or have answered with
the values `val` of their arguments. The frames are those of `base`. -/
structure Deferring (base first : Store) (caller : EnvId) (es : List Value) (val : Value → Value)
    (s : Store) : Prop where
  frames : base.SameFrames s
  promise : ∀ id e, e ∈ es → first.promise id = ⟨e, caller, none⟩ →
    s.promise id = ⟨e, caller, none⟩ ∨
      ∃ v, s.promise id = ⟨e, caller, some (.success v)⟩ ∧ IsValue v (val e)

/-- A value stands for itself, and a promise of an argument for the value of the argument. -/
inductive IsValueOrPromise (first : Store) (caller : EnvId) (es : List Value)
    (val : Value → Value) : Value → Value → Prop
  | value {v u : Value} : IsValue v u → IsValueOrPromise first caller es val v u
  | promise {id : PromiseId} {e : Value} : e ∈ es → first.promise id = ⟨e, caller, none⟩ →
      IsValueOrPromise first caller es val (.promise id) (val e)

section Deferring
variable {base first : Store} {caller : EnvId} {es : List Value} {val : Value → Value}

theorem enduring_deferring : Enduring m (Deferring base first caller es val) where
  note {s} source text h := by
    refine ⟨h.frames.noted m source text, fun id e he hid => ?_⟩
    have hpromise : (m.noted source text s).promise id = s.promise id := by
      unfold Machine.noted Store.note
      split <;> rfl
    rw [hpromise]
    exact h.promise id e he hid
  newMark h := ⟨⟨h.frames.mappings, h.frames.environments⟩, h.promise⟩
  emit _ h := ⟨⟨h.frames.mappings, h.frames.environments⟩, h.promise⟩

/-- Storing the value of its argument for a promise. -/
theorem Deferring.memoise {s : Store} (h : Deferring base first caller es val s) {id : PromiseId}
    {e v : Value} (he : e ∈ es) (hid : first.promise id = ⟨e, caller, none⟩)
    (hv : IsValue v (val e)) : Deferring base first caller es val (s.memoise id (.success v)) := by
  refine ⟨⟨h.frames.mappings, h.frames.environments⟩, fun other e' he' hother => ?_⟩
  rw [Store.promise_memoise]
  split
  · next hsame =>
    obtain ⟨rfl, -⟩ := hsame
    rw [hid] at hother
    cases hother
    rcases h.promise id e he hid with hwait | ⟨w, hstored, _⟩
    · exact .inr ⟨v, by rw [hwait], hv⟩
    · exact .inr ⟨v, by rw [hstored], hv⟩
  · exact h.promise other e' he' hother

/-- Forcing a promise of an argument gives the value of the argument. -/
theorem stage_deferring (first : Store) {look : String → Option Value} {vals : String → Value}
    {ans : Value → Answer} (hmeans : ∀ e ∈ es, Means m look [] vals e (ans e))
    (hok : ∀ e ∈ es, (ans e).ok = true) (hlook : ∀ name, base.lookup caller name = look name) :
    Stage m (Deferring base first caller es fun e => (ans e).value)
      (IsValueOrPromise first caller es fun e => (ans e).value) where
  toEnduring := enduring_deferring
  same hsame htag := .value ⟨hsame, htag⟩
  force {v u s} hv hs := by
    cases hv with
    | value hv => exact enduring_deferring.plain.force hv hs
    | @promise id e he hid =>
      rcases hs.promise id e he hid with hwait | ⟨w, hstored, hw⟩
      · have scene : Scene m look [] vals caller
            (Deferring base first caller es fun e => (ans e).value) IsValue :=
          enduring_deferring.plain.scene fun s name hs =>
            (hs.frames.lookup caller name).trans (hlook name)
        obtain ⟨⟨w, ok⟩, t, hb, ht, hstands⟩ := (hmeans e he).2 caller _ _ scene s hs
        obtain rfl : ok = true := hstands.ok.trans (hok e he)
        have hw := hstands.value (hok e he)
        have hforce : Derives m Shows (.call (.force id)) s (.success w)
            (t.memoise id (.success w)) := by
          refine .fresh (by rw [hwait]) ?_
          rw [hwait]
          exact hb
        exact ⟨w, _, .follow hforce rfl (.resolved hw.tag), ht.memoise he hid hw, hw.same, hw.tag⟩
      · have hforce : Derives m Shows (.call (.force id)) s (.success w) s :=
          .stored (by rw [hstored])
        exact ⟨w, s, .follow hforce rfl (.resolved hw.tag), hs, hw.same, hw.tag⟩

end Deferring

/-! ## Main result -/

section Calling
variable {s : Store} {caller home : EnvId} {names : List String} {body args : Value}
  {vals : String → Value} {ans : Value → Answer} {a : Answer}

/-- Calling an eager closure. -/
theorem derives_eager_call (k mark : Mark) (hs : s.Scoped) (hproper : args.ending = .nil)
    (hargs : ∀ e ∈ args.elements, Means m (s.lookup caller) [] vals e (ans e))
    (hok : ∀ e ∈ args.elements, (ans e).ok = true)
    (hbody : Means m (s.lookup home) names
      (Closure.valueOf ⟨k, names, body, home, false⟩ (args.elements.map fun e => (ans e).value))
      body a) :
    ∃ b u, Derives m Shows
        (.call (.evaluate (.pair mark (.closure k names body home false) args) caller)) s b u ∧
      StandsFor IsValue b
        (Closure.answer m ⟨k, names, body, home, false⟩ args.elements.length a) := by
  have scene : Scene m (s.lookup caller) [] vals caller s.SameFrames IsValue :=
    (enduring_sameFrames s).plain.scene fun t name ht => ht.lookup caller name
  obtain ⟨v, t, hv, ht, hending, hall⟩ :=
    (means_arguments hproper hargs hok).2 caller _ _ scene s (.refl s)
  obtain ⟨b, u, hb, -, hstands⟩ := derives_closure (c := ⟨k, names, body, home, false⟩)
    (enduring_sameFrames _).plain hbody hending hall (ht.scoped hs) (ht.lookup home)
    (fun _ hframes => hframes) (.refl _)
  rw [List.length_map] at hstands
  exact ⟨b, u, .apply (.itself nofun nofun nofun) rfl (.closure hv rfl hb), hstands⟩

/-- Calling a lazy closure. What it answers stands for the same answer, on a stage on which
the promises of the arguments can be forced. -/
theorem derives_lazy_call (k mark : Mark) (hs : s.Scoped) (hcaller : caller.index < s.environments.size)
    (hproper : args.ending = .nil)
    (hargs : ∀ e ∈ args.elements, Means m (s.lookup caller) [] vals e (ans e))
    (hok : ∀ e ∈ args.elements, (ans e).ok = true)
    (hbody : Means m (s.lookup home) names
      (Closure.valueOf ⟨k, names, body, home, true⟩ (args.elements.map fun e => (ans e).value))
      body a) :
    ∃ I S b u, Stage m I S ∧ Derives m Shows
        (.call (.evaluate (.pair mark (.closure k names body home true) args) caller)) s b u ∧
      I u ∧ StandsFor S b
        (Closure.answer m ⟨k, names, body, home, true⟩ args.elements.length a) := by
  have hparams := derives_deferred m Shows caller hproper s
  have hpromises := @Store.promises_defer s caller args.elements
  have hending := @Store.ending_defer s caller args.elements
  have hfirst : s.SameFrames (s.defer caller args.elements).2 :=
    ⟨(s.frames_defer _).1, (s.frames_defer _).2⟩
  generalize s.defer caller args.elements = deferred at hparams hpromises hending hfirst
  obtain ⟨v, first⟩ := deferred
  let c : Closure := ⟨k, names, body, home, true⟩
  -- the caller sees in the frame of the call what it saw before
  have hlook : ∀ name,
      (first.newChild home (c.bindings v)).2.lookup caller name = s.lookup caller name := by
    intro name
    rw [Store.lookup_newChild_of_lt home (c.bindings v) (hfirst.scoped hs)
      (by rw [hfirst.environments]; exact hcaller)]
    exact hfirst.lookup caller name
  have stage := stage_deferring first hargs hok hlook
  have hall : List.Forall₂ (IsValueOrPromise first caller args.elements fun e => (ans e).value)
      v.elements (args.elements.map fun e => (ans e).value) := by
    obtain ⟨hlength, heach⟩ := List.forall₂_iff_zip.mp hpromises
    rw [List.forall₂_map_right_iff]
    refine List.forall₂_iff_zip.mpr ⟨hlength, fun hmem => ?_⟩
    obtain ⟨id, rfl, hid⟩ := heach hmem
    exact .promise (List.of_mem_zip hmem).2 hid
  obtain ⟨b, u, hb, hu, hstands⟩ := derives_closure (c := c) stage hbody hending hall
    (hfirst.scoped hs) (hfirst.lookup home) (fun _ h => h.frames)
    ⟨.refl _, fun _ _ _ hid => .inl hid⟩
  rw [List.length_map] at hstands
  exact ⟨_, _, b, u, stage, .apply (.itself nofun nofun nofun) rfl (.closure hparams rfl hb), hu,
    hstands⟩

end Calling

/-- Forcing an answer that stands for another gives that one. -/
theorem StandsFor.forced (stage : Stage m I S) {e : Value} {env : EnvId} {s t : Store}
    {b a : Answer} (hstands : StandsFor S b a) (ht : I t)
    (hb : Derives m Shows (.call (.evaluate e env)) s b t) :
    ∃ a' u, a'.ok = a.ok ∧ a'.value.Same a.value ∧
      Eventually fun d n _ => (m.withLinks n).evaluateForced d e env s = .ok a' u := by
  cases hok : a.ok with
  | false =>
    have hbok : b.ok = false := hstands.ok.trans hok
    exact ⟨b, t, hbok, hstands.failed hok,
      hb.eventually.mono fun d n _ hrun => Machine.evaluateForced_of_failure hrun hbok⟩
  | true =>
    obtain ⟨v, ok⟩ := b
    obtain rfl : ok = true := hstands.ok.trans hok
    obtain ⟨w, u, hw, -, hsame, -⟩ := stage.force (hstands.value hok) ht
    refine ⟨.success w, u, rfl, hsame, ?_⟩
    refine (hb.eventually.and hw.eventually.ofMachine).mono fun d n _ hrun => ?_
    exact (Machine.evaluateForced_of_success hrun.1).trans hrun.2

end Calls

/-- **Lazy and eager closures agree.** The body of a closure stays in the fragment, as seen
from its home, and so do the arguments of a call, as seen from the caller. If the arguments
have values, then the call of the closure as a lazy one, once its answer is forced, and the
call of it as an eager one both answer within all large enough limits, and in the same way.
This holds for any number of arguments, and whether or not a machine refuses a wrong one. -/
theorem lazy_agrees_with_eager (m : Machine) (s : Store) (caller home : EnvId)
    (names : List String) (body args : Value) (k k' mark mark' : Mark) (hs : s.Scoped)
    (hcaller : caller.index < s.environments.size)
    (hbody : Fragment m.library (s.lookup home) names body) (hproper : args.ending = .nil)
    (hargs : ∀ e ∈ args.elements, Fragment m.library (s.lookup caller) [] e)
    (hvalues : ∀ e ∈ args.elements, ∃ depth links v t,
      (m.withLinks links).evaluate depth e caller s = .ok (.success v) t) :
    ∃ a a' t t', a'.ok = a.ok ∧ a'.value.Same a.value ∧
      ∃ bound, ∀ depth links, bound ≤ depth → bound ≤ links →
        (m.withLinks links).evaluate depth
            (.pair mark (.closure k names body home false) args) caller s = .ok a t ∧
          (m.withLinks links).evaluateForced depth
            (.pair mark' (.closure k' names body home true) args) caller s = .ok a' t' := by
  have : Nonempty Answer := ⟨.failure⟩
  have hmeans : ∀ e ∈ args.elements, ∃ a, Means m (s.lookup caller) [] (fun _ => .nil) e a := by
    intro e he
    refine (hargs e he).means fun name => ?_
    simp [Value.tag]
  choose! ans hans using hmeans
  have hok : ∀ e ∈ args.elements, (ans e).ok = true := by
    intro e he
    obtain ⟨depth, links, v, t, hrun⟩ := hvalues e he
    have hv : Derives m Shows (.call (.evaluate e caller)) s (.success v) t :=
      run_iff_derives.mp ⟨depth, links, 0, hrun⟩
    have scene : Scene m (s.lookup caller) [] (fun _ => .nil) caller s.SameFrames IsValue :=
      (enduring_sameFrames s).plain.scene fun t name ht => ht.lookup caller name
    obtain ⟨b, u, hb, -, hstands⟩ := (hans e he).2 caller _ _ scene s (.refl s)
    obtain ⟨rfl, -⟩ := hv.unique hb
    exact hstands.ok.symm
  have htags := (means_arguments hproper hans hok).1
  obtain ⟨a, ha⟩ := hbody.means (m := m)
    (Closure.tag_valueOf ⟨k, names, body, home, false⟩ htags)
  obtain ⟨b, t, hb, hstands⟩ := derives_eager_call k mark hs hproper hans hok ha
  obtain ⟨I, S, b', u, stage, hb', hu, hstands'⟩ :=
    derives_lazy_call k' mark' hs hcaller hproper hans hok ha
  obtain ⟨a', t', hok', hsame', hforced⟩ := hstands'.forced stage hu hb'
  obtain ⟨bound, hbound⟩ := hb.eventually.and hforced
  refine ⟨b, a', t, t', hok'.trans hstands.ok.symm, hsame'.trans ?_, bound,
    fun depth links hd hl => hbound depth links links hd hl hl⟩
  cases hanswer : (Closure.answer m ⟨k, names, body, home, false⟩ args.elements.length a).ok with
  | true => exact (hstands.value hanswer).same.symm
  | false => exact (hstands.failed hanswer).symm

/-! ## A sample -/

/-- Forcing parameters one after the other. -/
theorem ReadsAlike.mapM {vs vs' xs xs' : List Value}
    (hxs : List.Forall₂ (fun v v' => ∃ k : Nat, vs[k]? = some v ∧ vs'[k]? = some v') xs xs')
    {next next' : List Value → Script Answer}
    (hnext : ∀ ws ws', Value.unmarkedItems ws = Value.unmarkedItems ws' →
      ReadsAlike vs vs' (next ws) (next' ws')) :
    ReadsAlike vs vs' (xs.mapM Script.value >>= next) (xs'.mapM Script.value >>= next') := by
  induction hxs generalizing next next' with
  | nil => exact hnext [] [] rfl
  | cons hv _ ih =>
    obtain ⟨k, hk, hk'⟩ := hv
    simp only [List.mapM_cons, bind_assoc, pure_bind]
    refine .value hk hk' fun w w' hsame _ => ih fun ws ws' hws => hnext _ _ ?_
    rw [Value.unmarkedItems, Value.unmarkedItems, hsame, hws]

namespace Prelude

theorem integers?_unmarkedItems (vs : List Value) :
    integers? (Value.unmarkedItems vs) = integers? vs := by
  induction vs with
  | nil => rfl
  | cons v vs ih =>
    cases v with
    | integer n => exact congrArg (Option.map (n :: ·)) ih
    | _ => rfl

theorem arithmetic_readsValues (name : String) (combine : List Int → Int) :
    (arithmetic name combine).ReadsValues := by
  intro params params' env env' hproper hproper' hlength
  have helements : ∀ {v : Value}, v.ending = .nil → arguments v = pure v.elements := by
    intro v hv
    have h := Value.properElements_eq_ok_iff.mpr ⟨hv, rfl⟩
    rw [arguments, Value.listElements, h]
    rfl
  unfold arithmetic
  rw [helements hproper, helements hproper', pure_bind, pure_bind]
  refine .mapM (List.forall₂_iff_get.mpr ⟨hlength, fun i h h' => ?_⟩) fun ws ws' hws => ?_
  · exact ⟨i, List.getElem?_eq_getElem h, List.getElem?_eq_getElem h'⟩
  · rw [← integers?_unmarkedItems ws, hws, integers?_unmarkedItems]
    cases integers? ws' with
    | none => exact .done rfl rfl nofun
    | some ns => exact .done rfl rfl nofun

/-- An environment with a sum, and inside it one with a number. -/
def adding : Store where
  mappings := #[frame ["add"], ⟨[("n", .integer 4)]⟩]
  environments := #[⟨⟨0⟩, none⟩, ⟨⟨1⟩, some ⟨0⟩⟩]

theorem adding_scoped : adding.Scoped := by
  refine ⟨fun ⟨env⟩ e he => ?_, fun ⟨env⟩ outer houter => ?_⟩
  · match env with
    | 0 | 1 => cases he; decide
    | _ + 2 => cases he
  · match env with
    | 0 => cases houter
    | 1 => cases houter; decide
    | _ + 2 => cases houter

/-- Adds a name to itself and one. -/
def oddSum : Value :=
  form [.symbol "add", .symbol "x", form [.symbol "add", .symbol "x", .integer 1]]

/-- The argument of the call. -/
def argument : Value := form [.symbol "add", .symbol "n", .integer 2]

/-- A call of a closure of two names with one argument. -/
def oneArgument (isLazy : Bool) : Value :=
  .pair ⟨0⟩ (.closure ⟨0⟩ ["x", "y"] oddSum ⟨0⟩ isLazy)
    (form [argument])

/-- A sum is in the fragment if its arguments are. -/
theorem fragment_add (args : List Value) {look : String → Option Value} {names : List String}
    (hnot : "add" ∉ names) (hlook : look "add" = some (.native ⟨⟨0⟩, "add", "add", false⟩))
    (hargs : ∀ e ∈ (form args).elements, Fragment machine.library look names e)
    (hproper : (form args).ending = .nil) :
    Fragment machine.library look names (.pair ⟨0⟩ (.symbol "add") (form args)) :=
  .call hnot hlook rfl (arithmetic_readsValues "add" _) hproper hargs

theorem oddSum_fragment : Fragment machine.library (adding.lookup ⟨0⟩) ["x", "y"] oddSum := by
  have hadd : adding.lookup ⟨0⟩ "add" = some (.native ⟨⟨0⟩, "add", "add", false⟩) := by rfl
  have hinner : Fragment machine.library (adding.lookup ⟨0⟩) ["x", "y"]
      (form [.symbol "add", .symbol "x", .integer 1]) := by
    refine fragment_add [.symbol "x", .integer 1] (by decide) hadd ?_ rfl
    simpa [form, Value.elements] using ⟨.param (by decide), .integer 1⟩
  refine fragment_add [.symbol "x", _] (by decide) hadd ?_ rfl
  simpa [form, Value.elements] using ⟨.param (by decide), hinner⟩

theorem argument_fragment : Fragment machine.library (adding.lookup ⟨1⟩) [] argument := by
  have hadd : adding.lookup ⟨1⟩ "add" = some (.native ⟨⟨0⟩, "add", "add", false⟩) := by rfl
  have hn : adding.lookup ⟨1⟩ "n" = some (.integer 4) := by rfl
  refine fragment_add [.symbol "n", .integer 2] (by decide) hadd ?_ rfl
  simpa [form, Value.elements] using ⟨.other (by decide) (by simp [hn]), .integer 2⟩

/-- The integer that a run answers with. -/
def integer? : EStateM.Result Stop Store Answer → Option Int
  | .ok ⟨.integer n, true⟩ _ => some n
  | _ => none

theorem eq_ok_of_integer? {r : EStateM.Result Stop Store Answer} {n : Int}
    (h : integer? r = some n) : ∃ t, r = .ok (.success (.integer n)) t := by
  unfold integer? at h
  split at h
  · cases h
    exact ⟨_, rfl⟩
  · cases h

end Prelude

/-- The lazy closure that gets one argument of two, called from the inner environment, comes
to thirteen as the eager one does. -/
theorem oneArgument_agrees :
    (Prelude.adding.Scoped ∧ (1 < Prelude.adding.environments.size) ∧
        Fragment Prelude.machine.library (Prelude.adding.lookup ⟨0⟩) ["x", "y"] Prelude.oddSum ∧
        (∀ e ∈ (form [Prelude.argument]).elements,
          Fragment Prelude.machine.library (Prelude.adding.lookup ⟨1⟩) [] e) ∧
        ∀ e ∈ (form [Prelude.argument]).elements, ∃ depth links v t,
          (Prelude.machine.withLinks links).evaluate depth e ⟨1⟩ Prelude.adding =
            .ok (.success v) t) ∧
      ∃ bound, ∀ depth links, bound ≤ depth → bound ≤ links → ∃ t,
        (Prelude.machine.withLinks links).evaluateForced depth (Prelude.oneArgument true) ⟨1⟩
          Prelude.adding = .ok (.success (.integer 13)) t := by
  have hargs : ∀ e ∈ (form [Prelude.argument]).elements,
      Fragment Prelude.machine.library (Prelude.adding.lookup ⟨1⟩) [] e := by
    simpa [form, Value.elements] using Prelude.argument_fragment
  have hvalues : ∀ e ∈ (form [Prelude.argument]).elements, ∃ depth links v t,
      (Prelude.machine.withLinks links).evaluate depth e ⟨1⟩ Prelude.adding =
        .ok (.success v) t := by
    obtain ⟨t, hrun⟩ := Prelude.eq_ok_of_integer? (n := 6)
      (r := (Prelude.machine.withLinks 10).evaluate 10 Prelude.argument ⟨1⟩ Prelude.adding)
      (by decide +kernel)
    simpa [form, Value.elements] using ⟨10, 10, _, t, hrun⟩
  refine ⟨⟨Prelude.adding_scoped, by decide, Prelude.oddSum_fragment, hargs, hvalues⟩, ?_⟩
  obtain ⟨a, a', t, t', hok, hsame, bound, hruns⟩ := lazy_agrees_with_eager Prelude.machine
    Prelude.adding ⟨1⟩ ⟨0⟩ ["x", "y"] Prelude.oddSum (form [Prelude.argument]) ⟨0⟩ ⟨0⟩ ⟨0⟩ ⟨0⟩
    Prelude.adding_scoped (by decide) Prelude.oddSum_fragment rfl hargs hvalues
  -- the eager call is one that can be run
  obtain ⟨u, heager⟩ := Prelude.eq_ok_of_integer? (n := 13)
    (r := (Prelude.machine.withLinks 20).evaluate 20 (Prelude.oneArgument false) ⟨1⟩
      Prelude.adding) (by decide +kernel)
  have hderives : Derives Prelude.machine Shows
      (.call (.evaluate (Prelude.oneArgument false) ⟨1⟩)) Prelude.adding
      (.success (.integer 13)) u := run_iff_derives.mp ⟨20, 20, 0, heager⟩
  have hgeneral : Derives Prelude.machine Shows
      (.call (.evaluate (Prelude.oneArgument false) ⟨1⟩)) Prelude.adding a t :=
    run_iff_derives.mp ⟨bound, bound, 0, (hruns bound bound (Nat.le_refl _) (Nat.le_refl _)).1⟩
  obtain ⟨rfl, -⟩ := hgeneral.unique hderives
  obtain ⟨v, ok⟩ := a'
  obtain rfl : ok = true := hok
  have hv : v = .integer 13 := by
    cases v with
    | integer n => exact hsame
    | _ => cases hsame
  rw [hv] at hruns
  exact ⟨bound, fun depth links hd hl => ⟨t', (hruns depth links hd hl).2⟩⟩

end LispCore
