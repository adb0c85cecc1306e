import LispCore.Machine.Basic

/-! # The same fault about other values

Two runs that go through values that correspond, in whatever sense, raise faults that
correspond: with the same cause, about corresponding values. A relation of values is
carried over to what a host hands over, to faults and to stops (`Fault.Rel`).

The message of a fault shows of a value only its kind, its text and its description. So
corresponding faults are worded alike as soon as corresponding values are
(`Fault.Rel.message`). Alike need not mean the same: the message of a fault also stands to
itself, with more depth to write it in, as the texts of values do. -/
namespace LispCore

/-- What a host hands over, with related values. -/
inductive Datum.Rel (R : Value → Value → Prop) : Datum → Datum → Prop
  | truth (b : Bool) : Datum.Rel R (.truth b) (.truth b)
  | whole (n : Int) : Datum.Rel R (.whole n) (.whole n)
  | real {x x' : Flonum} : R (.float x) (.float x') → Datum.Rel R (.real x) (.real x')
  | text (s : String) : Datum.Rel R (.text s) (.text s)
  | absent : Datum.Rel R .absent .absent
  | value {v v' : Value} : R v v' → Datum.Rel R (.value v) (.value v')

/-- A fault that quotes no value. -/
def Fault.Bare : Fault → Prop
  | .floatRange | .noParent | .registrySealed _ | .limitRange | .digitRange | .native _ => True
  | _ => False

/-- The same fault, about related values. -/
inductive Fault.Rel (R : Value → Value → Prop) : Fault → Fault → Prop
  | improperList {v v' : Value} : R v v' → Fault.Rel R (.improperList v) (.improperList v')
  | notName {v v' : Value} : R v v' → Fault.Rel R (.notName v) (.notName v')
  | notInteger {d d' : Datum} : d.Rel R d' → Fault.Rel R (.notInteger d) (.notInteger d')
  | notNumber {d d' : Datum} : d.Rel R d' → Fault.Rel R (.notNumber d) (.notNumber d')
  | notText {d d' : Datum} : d.Rel R d' → Fault.Rel R (.notText d) (.notText d')
  | evaluationFailed {v v' : Value} : R v v' →
      Fault.Rel R (.evaluationFailed v) (.evaluationFailed v')
  | bare {f : Fault} : f.Bare → Fault.Rel R f f

/-- The same end without an answer. A fault has the same message, about related values. -/
inductive Stop.Rel (R : Value → Value → Prop) : Stop → Stop → Prop
  | raised {fault fault' : Fault} (message : String) : fault.Rel R fault' →
      Stop.Rel R (.raised fault message) (.raised fault' message)
  | tooDeep : Stop.Rel R .tooDeep .tooDeep
  | unfinished : Stop.Rel R .unfinished .unfinished

section Mono
variable {R S : Value → Value → Prop}

theorem Datum.Rel.mono (h : ∀ v v', R v v' → S v v') {d d' : Datum} (hd : d.Rel R d') :
    d.Rel S d' := by
  cases hd with
  | truth b => exact .truth b
  | whole n => exact .whole n
  | real hx => exact .real (h _ _ hx)
  | text s => exact .text s
  | absent => exact .absent
  | value hv => exact .value (h _ _ hv)

theorem Fault.Rel.mono (h : ∀ v v', R v v' → S v v') {f f' : Fault} (hf : f.Rel R f') :
    f.Rel S f' := by
  cases hf with
  | improperList hv => exact .improperList (h _ _ hv)
  | notName hv => exact .notName (h _ _ hv)
  | notInteger hd => exact .notInteger (hd.mono h)
  | notNumber hd => exact .notNumber (hd.mono h)
  | notText hd => exact .notText (hd.mono h)
  | evaluationFailed hv => exact .evaluationFailed (h _ _ hv)
  | bare hf => exact .bare hf

theorem Stop.Rel.mono (h : ∀ v v', R v v' → S v v') {e e' : Stop} (he : e.Rel R e') :
    e.Rel S e' := by
  cases he with
  | raised message hf => exact .raised message (hf.mono h)
  | tooDeep => exact .tooDeep
  | unfinished => exact .unfinished

theorem Unwritable.stop_rel (why : Unwritable) : why.stop.Rel R why.stop := by
  cases why with
  | tooDeep => exact .tooDeep
  | tooManyDigits => exact .raised _ (.bare trivial)

end Mono

/-! ## Faults and themselves -/

/-- The datum holds no value but such as fit. -/
def Datum.All (P : Value → Prop) : Datum → Prop
  | .value v => P v
  | _ => True

/-- The fault quotes no value but such as fit. -/
def Fault.All (P : Value → Prop) : Fault → Prop
  | .improperList v | .notName v | .evaluationFailed v => P v
  | .notInteger given | .notNumber given | .notText given => given.All P
  | _ => True

section Self
variable {R : Value → Value → Prop} {P : Value → Prop}

theorem Datum.Rel.of_all (h : ∀ v, P v → R v v) (hx : ∀ x, P (.float x)) {d : Datum}
    (hd : d.All P) : d.Rel R d := by
  cases d with
  | truth b => exact .truth b
  | whole n => exact .whole n
  | real x => exact .real (h _ (hx x))
  | text s => exact .text s
  | absent => exact .absent
  | value v => exact .value (h v hd)

/-- A fault about values that are related to themselves is related to itself. -/
theorem Fault.Rel.of_all (h : ∀ v, P v → R v v) (hx : ∀ x, P (.float x)) {f : Fault}
    (hf : f.All P) : f.Rel R f := by
  cases f with
  | improperList v => exact .improperList (h v hf)
  | notName v => exact .notName (h v hf)
  | evaluationFailed v => exact .evaluationFailed (h v hf)
  | notInteger => exact .notInteger (.of_all h hx hf)
  | notNumber => exact .notNumber (.of_all h hx hf)
  | notText => exact .notText (.of_all h hx hf)
  | _ => exact .bare trivial

theorem Fault.all_true (f : Fault) : f.All fun _ => True := by
  have hd (d : Datum) : d.All fun _ => True := by
    cases d <;> trivial
  cases f with
  | notInteger d | notNumber d | notText d => exact hd d
  | _ => trivial

theorem Fault.Rel.refl (h : ∀ v, R v v) (f : Fault) : f.Rel R f :=
  .of_all (fun v _ => h v) (fun _ => trivial) f.all_true

end Self

/-! ## Messages -/

/-- What two stores write of related values, each in its own depth, stands in the relation
`T`. -/
structure Worded (R : Value → Value → Prop) (T : Written String → Written String → Prop)
    (s s' : Store) (depth depth' : Nat) : Prop where
  refl (x : Written String) : T x x
  map (f : String → String) {x y : Written String} : T x y → T (x.map f) (y.map f)
  tag {v v' : Value} : R v v' → v.tag = v'.tag
  real {x x' : Flonum} : R (.float x) (.float x') → x.shortestText = x'.shortestText
  describe {v v' : Value} : R v v' → T (s.describe depth v) (s'.describe depth' v')
  render {v v' : Value} : R v v' → T (s.render depth v) (s'.render depth' v')

section Messages
variable {R : Value → Value → Prop} {T : Written String → Written String → Prop} {s s' : Store}
  {depth depth' : Nat}

theorem Datum.Rel.describe (h : Worded R T s s' depth depth') {d d' : Datum} (hd : d.Rel R d') :
    T (s.describeDatum depth d) (s'.describeDatum depth' d') := by
  cases hd with
  | value hv => exact h.describe hv
  | real hx =>
    simp only [Store.describeDatum, h.real hx]
    exact h.refl _
  | _ => exact h.refl _

theorem Datum.Rel.kind_eq (h : Worded R T s s' depth depth') {d d' : Datum} (hd : d.Rel R d') :
    d.kind = d'.kind := by
  cases hd with
  | value hv => simp only [Datum.kind, h.tag hv]
  | _ => rfl

theorem Fault.Bare.message_eq {f : Fault} (hf : f.Bare) (s s' : Store) (depth depth' : Nat) :
    f.message s depth = f.message s' depth' := by
  cases f with
  | floatRange | noParent | registrySealed | limitRange | digitRange | native => rfl
  | _ => exact hf.elim

/-- **Faults about values that are worded alike are worded alike.** -/
theorem Fault.Rel.message (h : Worded R T s s' depth depth') {f f' : Fault} (hf : f.Rel R f') :
    T (f.message s depth) (f'.message s' depth') := by
  cases hf with
  | improperList hv | notName hv => exact h.map _ (h.describe hv)
  | evaluationFailed hv => exact h.map _ (h.render hv)
  | notInteger hd | notNumber hd => exact h.map _ (hd.describe h)
  | notText hd =>
    simp only [Fault.message, hd.kind_eq h]
    exact h.refl _
  | bare hf =>
    rw [hf.message_eq s s' depth depth']
    exact h.refl _

end Messages

end LispCore
