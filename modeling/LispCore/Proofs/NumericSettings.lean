import LispCore.Settings
import Mathlib.Data.List.Basic
import Mathlib.Data.Nat.Digits.Defs

/-! # Which settings are positive numbers

A positive number is written in decimal digits of any script, with single underscores between
them if one likes, perhaps behind a plus sign and with white space around it (`Spelling`).
Reading accepts these texts and no others, and gives the number that the digits stand for in
their places; every other text leaves the default (`readPositive_exactly`).

The grammar is stated by what is written: groups of digits, put together with underscores.
The reader goes through the characters one by one, and all that is known of it comes from an
induction along the characters that it accepts (`DigitRun`). -/
namespace LispCore

/-! ## The grammar -/

/-- A decimal digit of any script. -/
def isDecimal (c : Char) : Bool := (digitValue? c).isSome

/-- Groups of decimal digits, at least one digit in each. -/
structure Numeral where
  groups : List (List Char)
  nonempty : groups ≠ []
  group_nonempty : ∀ g ∈ groups, g ≠ []
  decimal : ∀ g ∈ groups, ∀ c ∈ g, isDecimal c = true

namespace Numeral

/-- The groups with single underscores between them. -/
def text (n : Numeral) : List Char := ['_'].intercalate n.groups

/-- The values of the digits in the order in which they are written. -/
def digits (n : Numeral) : List Nat := n.groups.flatten.filterMap digitValue?

/-- The number that the digits stand for, the last one for ones. -/
def value (n : Numeral) : Nat := Nat.ofDigits 10 n.digits.reverse

end Numeral

/-- The characters of a sign that may be there. -/
def plusSign (plus : Bool) : List Char := if plus then ['+'] else []

/-- A numeral that has no more digits than are read, behind a plus sign or none, with white
space around it. -/
structure Spelling where
  before : List Char
  plus : Bool
  numeral : Numeral
  after : List Char
  before_blank : ∀ c ∈ before, isBlank c = true
  after_blank : ∀ c ∈ after, isBlank c = true
  fits : numeral.digits.length ≤ digitLimit

namespace Spelling

def text (w : Spelling) : String :=
  String.ofList (w.before ++ (plusSign w.plus ++ w.numeral.text) ++ w.after)

def value (w : Spelling) : Nat := w.numeral.value

end Spelling

/-- What is left of a text behind a plus sign. -/
def unsigned : List Char → List Char
  | '+' :: cs => cs
  | cs => cs

/-- Why what stands between the white space is not a positive number. -/
inductive Refused (cs : List Char) : Prop
  /-- There is nothing. -/
  | empty : cs = [] → Refused cs
  /-- There is a minus sign in front. -/
  | negative : cs.head? = some '-' → Refused cs
  /-- There is a character that is neither a digit nor an underscore. -/
  | foreign {c : Char} : c ∈ unsigned cs → isDecimal c = false → c ≠ '_' → Refused cs
  /-- There is an underscore that does not stand between two digits. -/
  | misplaced {left right : List Char} : unsigned cs = left ++ '_' :: right →
      left.getLast?.any isDecimal = false ∨ right.head?.any isDecimal = false → Refused cs
  /-- There are more digits than are read. -/
  | overlong : digitLimit < ((unsigned cs).filter isDecimal).length → Refused cs
  /-- There is no digit but zero. -/
  | zero : (∀ c ∈ unsigned cs, ∀ d, digitValue? c = some d → d = 0) → Refused cs

/-! ## Digits -/

/-- The characters are digits with these values and single underscores between them. -/
inductive DigitRun : List Char → List Nat → Prop
  | single {c : Char} {d : Nat} : digitValue? c = some d → DigitRun [c] [d]
  | next {c : Char} {d : Nat} {cs : List Char} {ds : List Nat} :
      digitValue? c = some d → DigitRun cs ds → DigitRun (c :: cs) (d :: ds)
  | apart {c : Char} {d : Nat} {cs : List Char} {ds : List Nat} :
      digitValue? c = some d → DigitRun cs ds → DigitRun (c :: '_' :: cs) (d :: ds)

theorem digitValue?_underscore : digitValue? '_' = none := by decide

theorem any_getLast?_cons {p : Char → Bool} {c : Char} {cs : List Char}
    (h : cs.getLast?.any p = true) : (c :: cs).getLast?.any p = true := by
  cases cs with
  | nil => cases h
  | cons b cs => rwa [List.getLast?_cons_cons]

theorem isDecimal_of_value {c : Char} {d : Nat} (h : digitValue? c = some d) :
    isDecimal c = true := by
  simp [isDecimal, h]

/-- An underscore stands behind a digit in front. -/
theorem exists_before {c : Char} {rest left right : List Char} (hc : isDecimal c = true)
    (h : c :: rest = left ++ '_' :: right) :
    ∃ before, left = c :: before ∧ rest = before ++ '_' :: right := by
  cases left with
  | nil =>
    cases h
    simp [isDecimal, digitValue?_underscore] at hc
  | cons b before =>
    obtain ⟨rfl, rfl⟩ := List.cons.inj h
    exact ⟨before, rfl, rfl⟩

theorem readDigits?_singleton (c : Char) : readDigits? [c] = (digitValue? c).map ([·]) := by
  cases h : digitValue? c <;> simp [readDigits?, h]

theorem readDigits?_apart (c : Char) (rest : List Char) :
    readDigits? (c :: '_' :: rest) =
      (digitValue? c).bind fun d => (readDigits? rest).map (d :: ·) := rfl

theorem readDigits?_next {b : Char} (hb : b ≠ '_') (c : Char) (rest : List Char) :
    readDigits? (c :: b :: rest) =
      (digitValue? c).bind fun d => (readDigits? (b :: rest)).map (d :: ·) := by
  rw [readDigits?]
  split
  · next h => cases h
  · next h => exact absurd (List.cons.inj h).1 hb
  · rfl

theorem DigitRun.of_read : ∀ {cs : List Char} {ds : List Nat}, readDigits? cs = some ds →
    DigitRun cs ds
  | [], _, h => by cases h
  | [c], ds, h => by
    rw [readDigits?_singleton, Option.map_eq_some_iff] at h
    obtain ⟨d, hc, rfl⟩ := h
    exact .single hc
  | c :: b :: rest, ds, h => by
    by_cases hb : b = '_'
    · subst hb
      rw [readDigits?_apart, Option.bind_eq_some_iff] at h
      obtain ⟨d, hc, h⟩ := h
      obtain ⟨ds, hrest, rfl⟩ := Option.map_eq_some_iff.mp h
      exact .apart hc (of_read hrest)
    · rw [readDigits?_next hb, Option.bind_eq_some_iff] at h
      obtain ⟨d, hc, h⟩ := h
      obtain ⟨ds, hrest, rfl⟩ := Option.map_eq_some_iff.mp h
      exact .next hc (of_read hrest)

namespace DigitRun
variable {cs : List Char} {ds : List Nat}

theorem head_isDecimal (h : DigitRun cs ds) : cs.head?.any isDecimal = true := by
  cases h with
  | single hc | next hc | apart hc => exact isDecimal_of_value hc

/-- There is a digit in front of a run, so what stands there is no underscore. -/
theorem read (h : DigitRun cs ds) : readDigits? cs = some ds := by
  induction h with
  | single hc => rw [readDigits?_singleton, hc]; rfl
  | @next c d cs ds hc hrun ih =>
    have hhead := hrun.head_isDecimal
    cases cs with
    | nil => cases hhead
    | cons b rest =>
      have hb : b ≠ '_' := by
        rintro rfl
        simp [isDecimal, digitValue?_underscore] at hhead
      rw [readDigits?_next hb, hc, ih]
      rfl
  | apart hc _ ih =>
    rw [readDigits?_apart, hc, ih]
    rfl

theorem values (h : DigitRun cs ds) : cs.filterMap digitValue? = ds := by
  induction h with
  | single hc => simp [hc]
  | next hc _ ih => rw [List.filterMap_cons_some hc, ih]
  | apart hc _ ih =>
    rw [List.filterMap_cons_some hc, List.filterMap_cons_none digitValue?_underscore, ih]

theorem length_filter (h : DigitRun cs ds) : (cs.filter isDecimal).length = ds.length := by
  rw [← h.values, List.length_filterMap_eq_countP, List.countP_eq_length_filter]
  rfl

theorem isDecimal_or_underscore (h : DigitRun cs ds) :
    ∀ c ∈ cs, isDecimal c = true ∨ c = '_' := by
  induction h with
  | single hc => simp [isDecimal_of_value hc]
  | next hc _ ih => simpa [isDecimal_of_value hc] using ih
  | apart hc _ ih => simpa [isDecimal_of_value hc] using ih

/-- Every underscore stands between two digits. -/
theorem around_underscore (h : DigitRun cs ds) {left right : List Char}
    (hcs : cs = left ++ '_' :: right) :
    left.getLast?.any isDecimal = true ∧ right.head?.any isDecimal = true := by
  induction h generalizing left with
  | single hc =>
    obtain ⟨before, rfl, hrest⟩ := exists_before (isDecimal_of_value hc) hcs
    simp at hrest
  | next hc _ ih =>
    obtain ⟨before, rfl, hrest⟩ := exists_before (isDecimal_of_value hc) hcs
    exact ⟨any_getLast?_cons (ih hrest).1, (ih hrest).2⟩
  | @apart c d rest ds hc hrun ih =>
    obtain ⟨before, rfl, hrest⟩ := exists_before (isDecimal_of_value hc) hcs
    cases before with
    | nil =>
      obtain ⟨-, rfl⟩ := List.cons.inj hrest
      exact ⟨isDecimal_of_value hc, hrun.head_isDecimal⟩
    | cons b before =>
      obtain ⟨rfl, hbehind⟩ := List.cons.inj hrest
      exact ⟨any_getLast?_cons (any_getLast?_cons (ih hbehind).1), (ih hbehind).2⟩

theorem getLast_isDecimal (h : DigitRun cs ds) : cs.getLast?.any isDecimal = true := by
  induction h with
  | single hc => exact isDecimal_of_value hc
  | next _ _ ih => exact any_getLast?_cons ih
  | apart _ _ ih => exact any_getLast?_cons (any_getLast?_cons ih)

/-- A run of digits is a numeral. A digit goes in front of the first group, or makes one of
its own in front of an underscore. -/
theorem exists_numeral (h : DigitRun cs ds) : ∃ n : Numeral, n.text = cs ∧ n.digits = ds := by
  induction h with
  | @single c d hc =>
    exact ⟨⟨[[c]], by simp, by simp, by simp [isDecimal, hc]⟩, by simp [Numeral.text],
      by simp [Numeral.digits, hc]⟩
  | @next c d cs ds hc _ ih =>
    obtain ⟨⟨groups, hne, hgroups, hdecimal⟩, rfl, rfl⟩ := ih
    obtain ⟨g, gs, rfl⟩ := List.exists_cons_of_ne_nil hne
    rw [List.forall_mem_cons] at hgroups hdecimal
    refine ⟨⟨(c :: g) :: gs, by simp, ?_, ?_⟩, ?_, by simp [Numeral.digits, hc]⟩
    · exact List.forall_mem_cons.mpr ⟨by simp, hgroups.2⟩
    · refine List.forall_mem_cons.mpr ⟨?_, hdecimal.2⟩
      exact List.forall_mem_cons.mpr ⟨isDecimal_of_value hc, hdecimal.1⟩
    · cases gs <;> simp [Numeral.text]
  | @apart c d cs ds hc _ ih =>
    obtain ⟨⟨groups, hne, hgroups, hdecimal⟩, rfl, rfl⟩ := ih
    obtain ⟨g, gs, rfl⟩ := List.exists_cons_of_ne_nil hne
    refine ⟨⟨[c] :: g :: gs, by simp, ?_, ?_⟩, by simp [Numeral.text],
      by simp [Numeral.digits, hc]⟩
    · exact List.forall_mem_cons.mpr ⟨by simp, hgroups⟩
    · refine List.forall_mem_cons.mpr ⟨?_, hdecimal⟩
      simpa using isDecimal_of_value hc

/-- A group of digits is a run, also in front of an underscore and another run. -/
theorem of_group {g : List Char} (hne : g ≠ []) (hdecimal : ∀ c ∈ g, isDecimal c = true) :
    DigitRun g (g.filterMap digitValue?) ∧ ∀ {cs ds}, DigitRun cs ds →
      DigitRun (g ++ '_' :: cs) (g.filterMap digitValue? ++ ds) := by
  induction g with
  | nil => exact absurd rfl hne
  | cons c g ih =>
    rw [List.forall_mem_cons] at hdecimal
    obtain ⟨d, hc⟩ := Option.isSome_iff_exists.mp hdecimal.1
    rw [List.filterMap_cons_some hc]
    cases g with
    | nil => exact ⟨.single hc, fun hrun => .apart hc hrun⟩
    | cons b g =>
      obtain ⟨halone, hbefore⟩ := ih (by simp) hdecimal.2
      exact ⟨.next hc halone, fun hrun => .next hc (hbefore hrun)⟩

end DigitRun

theorem Numeral.run (n : Numeral) : DigitRun n.text n.digits := by
  obtain ⟨groups, hne, hgroups, hdecimal⟩ := n
  change DigitRun (['_'].intercalate groups) (groups.flatten.filterMap digitValue?)
  induction groups with
  | nil => exact absurd rfl hne
  | cons g gs ih =>
    rw [List.forall_mem_cons] at hgroups hdecimal
    obtain ⟨halone, hbefore⟩ := DigitRun.of_group hgroups.1 hdecimal.1
    cases gs with
    | nil => simpa using halone
    | cons g' gs =>
      have hrest := ih (by simp) hgroups.2 hdecimal.2
      rw [List.intercalate_cons_cons, List.append_assoc, List.singleton_append, List.flatten_cons,
        List.filterMap_append]
      exact hbefore hrest

/-- Each digit counts ten times as much as the one behind it. -/
theorem foldl_eq_ofDigits (ds : List Nat) :
    ds.foldl (fun n d => 10 * n + d) 0 = Nat.ofDigits 10 ds.reverse := by
  rw [← List.reverse_reverse ds, List.foldl_reverse, List.reverse_reverse, Nat.ofDigits_eq_foldr]
  congr 1
  funext d n
  simp [Nat.add_comm]

theorem ofDigits_zeros {ds : List Nat} (h : ∀ d ∈ ds, d = 0) : Nat.ofDigits 10 ds = 0 := by
  induction ds with
  | nil => rfl
  | cons d ds ih =>
    rw [List.forall_mem_cons] at h
    rw [Nat.ofDigits_cons, h.1, ih h.2]

/-- **The numbers that are read are those of numerals that are not too long.** -/
theorem readNatural?_eq_some_iff {cs : List Char} {k : Nat} : readNatural? cs = some k ↔
    ∃ n : Numeral, n.text = cs ∧ n.digits.length ≤ digitLimit ∧ n.value = k := by
  unfold readNatural?
  rw [Option.bind_eq_some_iff]
  constructor
  · rintro ⟨ds, hds, h⟩
    obtain ⟨n, hn, rfl⟩ := (DigitRun.of_read hds).exists_numeral
    split at h
    · next hfits =>
      rw [foldl_eq_ofDigits] at h
      exact ⟨n, hn, hfits, Option.some.inj h⟩
    · cases h
  · rintro ⟨n, rfl, hfits, rfl⟩
    refine ⟨n.digits, n.run.read, ?_⟩
    rw [if_pos hfits, foldl_eq_ofDigits]
    rfl

/-! ## White space and signs -/

/-- No digit is white space: the runs of ten lie apart from its ranges. -/
theorem isBlank_of_isDecimal {c : Char} (h : isDecimal c = true) : isBlank c = false := by
  have hapart : ∀ start ∈ zeroDigits, ∀ r ∈ blankRanges, r.2 < start ∨ start + 10 ≤ r.1 := by
    decide
  obtain ⟨d, hd⟩ := Option.isSome_iff_exists.mp h
  obtain ⟨start, hfind, -⟩ := Option.map_eq_some_iff.mp hd
  have hstart := List.find?_some hfind
  refine List.any_eq_false.mpr fun r hr hblank => ?_
  simp only [Bool.and_eq_true, decide_eq_true_eq] at hstart hblank
  rcases hapart start (List.mem_of_find?_eq_some hfind) r hr with hlow | hhigh <;> omega

theorem any_isBlank_of_isDecimal {o : Option Char} (h : o.any isDecimal = true) :
    o.any isBlank = false := by
  cases o with
  | none => rfl
  | some c => exact isBlank_of_isDecimal h

theorem dropWhile_isBlank_eq_self {cs : List Char} (h : cs.head?.any isBlank = false) :
    cs.dropWhile isBlank = cs := by
  cases cs with
  | nil => rfl
  | cons c cs => exact List.dropWhile_cons_of_neg (by simpa using h)

theorem stripBlank_append {before core after : List Char} (hne : core ≠ [])
    (hbefore : ∀ c ∈ before, isBlank c = true) (hafter : ∀ c ∈ after, isBlank c = true)
    (hhead : core.head?.any isBlank = false) (hlast : core.getLast?.any isBlank = false) :
    stripBlank (before ++ core ++ after) = core := by
  have hleft : (before ++ core ++ after).dropWhile isBlank = core ++ after := by
    rw [List.append_assoc, List.dropWhile_append_of_pos hbefore]
    obtain ⟨c, cs, rfl⟩ := List.exists_cons_of_ne_nil hne
    exact dropWhile_isBlank_eq_self hhead
  have hright : (core ++ after).reverse.dropWhile isBlank = core.reverse := by
    rw [List.reverse_append, List.dropWhile_append_of_pos fun c hc => hafter c (by simpa using hc)]
    refine dropWhile_isBlank_eq_self ?_
    rwa [List.head?_reverse]
  rw [stripBlank, hleft, hright, List.reverse_reverse]

/-- What is stripped is white space. -/
theorem exists_stripBlank (cs : List Char) : ∃ before after,
    cs = before ++ stripBlank cs ++ after ∧ (∀ c ∈ before, isBlank c = true) ∧
      ∀ c ∈ after, isBlank c = true := by
  have hall : ∀ l : List Char, ∀ c ∈ l.takeWhile isBlank, isBlank c = true :=
    fun l => List.all_eq_true.mp List.all_takeWhile
  refine ⟨cs.takeWhile isBlank, ((cs.dropWhile isBlank).reverse.takeWhile isBlank).reverse, ?_,
    hall cs, fun c hc => hall _ c (by simpa using hc)⟩
  rw [List.append_assoc, stripBlank, ← List.reverse_append, List.takeWhile_append_dropWhile,
    List.reverse_reverse, List.takeWhile_append_dropWhile]

section Signs
variable {raw : String}

theorem readInteger?_of_unsigned (h : (stripBlank raw.toList).head? ≠ some '-') :
    readInteger? raw = (readNatural? (unsigned (stripBlank raw.toList))).map Int.ofNat := by
  unfold readInteger? unsigned
  generalize stripBlank raw.toList = cs at h
  split
  · exact absurd rfl h
  · rfl
  · next hplus =>
    split
    · exact absurd rfl (hplus _)
    · rfl

/-- Behind a minus sign there is no positive number. -/
theorem readInteger?_nonpos (h : (stripBlank raw.toList).head? = some '-') {n : Int}
    (hn : readInteger? raw = some n) : n ≤ 0 := by
  unfold readInteger? at hn
  generalize stripBlank raw.toList = cs at h hn
  split at hn
  · obtain ⟨_, hk, rfl⟩ := Option.map_eq_some_iff.mp hn
    obtain ⟨k, -, hk⟩ := Option.bind_eq_some_iff.mp hk
    cases hk
    exact Int.neg_nonpos_of_nonneg (Int.natCast_nonneg k)
  · cases h
  · next hminus _ =>
    cases cs with
    | nil => cases h
    | cons c cs =>
      cases h
      exact absurd rfl (hminus cs)

theorem exists_plusSign (cs : List Char) : ∃ plus, cs = plusSign plus ++ unsigned cs := by
  unfold unsigned
  split
  · exact ⟨true, rfl⟩
  · exact ⟨false, rfl⟩

end Signs

/-! ## Spellings -/

namespace Numeral
variable (n : Numeral)

theorem unsigned_text (plus : Bool) : unsigned (plusSign plus ++ n.text) = n.text := by
  cases plus with
  | true => rfl
  | false =>
    change unsigned n.text = n.text
    have hhead := n.run.head_isDecimal
    unfold unsigned
    split
    · next h =>
      have hplus : isDecimal '+' = false := by decide
      simp [h, hplus] at hhead
    · rfl

theorem head?_signed_ne_minus (plus : Bool) : (plusSign plus ++ n.text).head? ≠ some '-' := by
  cases plus with
  | true => simp [plusSign]
  | false =>
    intro h
    have hhead := n.run.head_isDecimal
    rw [show n.text.head? = some '-' from h] at hhead
    exact absurd hhead (by decide)

end Numeral

namespace Spelling
variable (w : Spelling)

theorem stripBlank_text : stripBlank w.text.toList = plusSign w.plus ++ w.numeral.text := by
  have hhead := w.numeral.run.head_isDecimal
  have hlast := w.numeral.run.getLast_isDecimal
  rw [text, String.toList_ofList]
  have hne : plusSign w.plus ++ w.numeral.text ≠ [] := by
    intro h
    rw [(List.append_eq_nil_iff.mp h).2] at hhead
    cases hhead
  refine stripBlank_append hne w.before_blank w.after_blank ?_ ?_
  · cases w.plus with
    | true => exact show isBlank '+' = false by decide
    | false => exact any_isBlank_of_isDecimal hhead
  · cases w.plus with
    | true => exact any_isBlank_of_isDecimal (any_getLast?_cons hlast)
    | false => exact any_isBlank_of_isDecimal hlast

theorem readInteger?_text : readInteger? w.text = some (w.value : Int) := by
  have hsign : (stripBlank w.text.toList).head? ≠ some '-' := by
    rw [w.stripBlank_text]
    exact w.numeral.head?_signed_ne_minus w.plus
  have hread : readNatural? w.numeral.text = some w.value :=
    readNatural?_eq_some_iff.mpr ⟨w.numeral, rfl, w.fits, rfl⟩
  rw [readInteger?_of_unsigned hsign, w.stripBlank_text, w.numeral.unsigned_text, hread]
  rfl

/-- A positive number that is read is the number of a spelling. -/
theorem exists_of_readInteger? {raw : String} {n : Int} (h : readInteger? raw = some n)
    (hn : 0 < n) : ∃ w : Spelling, w.text = raw ∧ (w.value : Int) = n := by
  have hsign : (stripBlank raw.toList).head? ≠ some '-' := by
    intro hminus
    have := readInteger?_nonpos hminus h
    omega
  rw [readInteger?_of_unsigned hsign] at h
  obtain ⟨k, hk, rfl⟩ := Option.map_eq_some_iff.mp h
  obtain ⟨numeral, htext, hfits, rfl⟩ := readNatural?_eq_some_iff.mp hk
  obtain ⟨before, after, hraw, hbefore, hafter⟩ := exists_stripBlank raw.toList
  obtain ⟨plus, hplus⟩ := exists_plusSign (stripBlank raw.toList)
  refine ⟨⟨before, plus, numeral, after, hbefore, hafter, hfits⟩, ?_, rfl⟩
  change String.ofList (before ++ (plusSign plus ++ numeral.text) ++ after) = raw
  rw [htext, ← hplus, ← hraw, String.ofList_toList]

end Spelling

/-- A text that is refused spells no positive number. -/
theorem Refused.value_eq_zero {w : Spelling} (h : Refused (stripBlank w.text.toList)) :
    w.value = 0 := by
  have hrun := w.numeral.run
  have hunsigned : unsigned (stripBlank w.text.toList) = w.numeral.text := by
    rw [w.stripBlank_text, w.numeral.unsigned_text]
  cases h with
  | empty hnone =>
    rw [hnone] at hunsigned
    have hhead := hrun.head_isDecimal
    rw [← hunsigned] at hhead
    cases hhead
  | negative hminus =>
    rw [w.stripBlank_text] at hminus
    exact absurd hminus (w.numeral.head?_signed_ne_minus w.plus)
  | foreign hmem hforeign hother =>
    rw [hunsigned] at hmem
    rcases hrun.isDecimal_or_underscore _ hmem with hdecimal | hunderscore
    · rw [hforeign] at hdecimal
      cases hdecimal
    · exact absurd hunderscore hother
  | misplaced hsplit hside =>
    rw [hunsigned] at hsplit
    obtain ⟨hleft, hright⟩ := hrun.around_underscore hsplit
    rcases hside with hside | hside
    · rw [hleft] at hside
      cases hside
    · rw [hright] at hside
      cases hside
  | overlong hlong =>
    have hfits := w.fits
    rw [hunsigned, hrun.length_filter] at hlong
    omega
  | zero hzero =>
    rw [hunsigned] at hzero
    have hdigits : ∀ d ∈ w.numeral.digits.reverse, d = 0 := by
      intro d hd
      rw [List.mem_reverse, ← hrun.values, List.mem_filterMap] at hd
      obtain ⟨c, hc, hd⟩ := hd
      exact hzero c hc d hd
    exact ofDigits_zeros hdigits

/-! ## Decimal spellings -/

theorem digitValue?_of_isDigit {c : Char} (h : c.isDigit = true) :
    digitValue? c = some (c.toNat - '0'.toNat) := by
  have hrange : 0x30 ≤ c.toNat ∧ c.toNat < 0x30 + 10 := by
    obtain ⟨hlow, hhigh⟩ := Char.isDigit_iff_toNat.mp h
    exact ⟨hlow, Nat.lt_succ_of_le hhigh⟩
  have hfind : zeroDigits.find? (fun start => start ≤ c.toNat && c.toNat < start + 10) = some 0x30 :=
    List.find?_cons_of_pos (by simpa using hrange)
  rw [digitValue?, hfind]
  rfl

/-- The groups of the digits of a number make a numeral of that number. -/
theorem exists_numeral_of_toString {n : Nat} {groups : List (List Char)}
    (hgroups : ∀ g ∈ groups, g ≠ []) (hflat : groups.flatten = (toString n).toList) :
    ∃ k : Numeral, k.groups = groups ∧ k.digits.length = (toString n).length ∧ k.value = n := by
  have hchars : (toString n).toList = Nat.toDigits 10 n := by
    rw [Nat.toString_eq_ofList_toDigits, String.toList_ofList]
  have hdigit : ∀ c ∈ Nat.toDigits 10 n, digitValue? c = some (c.toNat - '0'.toNat) := fun c hc =>
    digitValue?_of_isDigit (Nat.isDigit_of_mem_toDigits (by decide) (by decide) hc)
  have hvalues : groups.flatten.filterMap digitValue? =
      (Nat.toDigits 10 n).map fun c => c.toNat - '0'.toNat := by
    rw [hflat, hchars]
    exact List.filterMap_eq_map_iff_forall_eq_some.mpr hdigit
  have hne : groups ≠ [] := by
    rintro rfl
    rw [hchars] at hflat
    exact Nat.toDigits_ne_nil hflat.symm
  have hdecimal : ∀ g ∈ groups, ∀ c ∈ g, isDecimal c = true := by
    intro g hg c hc
    have hmem : c ∈ Nat.toDigits 10 n := by
      rw [← hchars, ← hflat]
      exact List.mem_flatten_of_mem hg hc
    exact isDecimal_of_value (hdigit c hmem)
  refine ⟨⟨groups, hne, hgroups, hdecimal⟩, rfl, ?_, ?_⟩
  · rw [Numeral.digits, hvalues, List.length_map, ← hchars, String.length_toList]
  · rw [Numeral.value, Numeral.digits, hvalues, ← foldl_eq_ofDigits, List.foldl_map]
    exact Nat.ofDigitChars_toDigits (by decide) (by decide)

/-! ## Main result -/

theorem readPositive_pos (raw : Option String) {default : Int} (h : 0 < default) :
    0 < readPositive raw default := by
  unfold readPositive
  split
  · split
    · assumption
    · exact h
  · exact h

theorem readPositive_text (w : Spelling) (h : 0 < w.value) (default : Int) :
    readPositive (some w.text) default = w.value := by
  have hpos : (0 : Int) < w.value := Int.natCast_pos.mpr h
  simp only [readPositive, Option.bind_some, w.readInteger?_text, if_pos hpos]

/-- A text that spells no positive number leaves the default. -/
theorem readPositive_default {raw : String} (h : ∀ w : Spelling, w.text = raw → w.value = 0)
    (default : Int) : readPositive (some raw) default = default := by
  unfold readPositive
  rw [Option.bind_some]
  split
  · next n hn =>
    split
    · next hpos =>
      obtain ⟨w, hw, rfl⟩ := Spelling.exists_of_readInteger? hn hpos
      rw [h w hw] at hpos
      cases hpos
    · rfl
  · rfl

/-- **Reading accepts the spellings of positive numbers and nothing else.** A text that spells
a positive number is read as that number. Every other text leaves the default, those among
them that are refused for one of the reasons given, and so does an absent one. So the result
is positive if the default is, and a positive number is read back from its own digits, with
underscores and white space put in as one likes. -/
theorem readPositive_exactly (default : Int) (hdefault : 0 < default) :
    (∀ w : Spelling, 0 < w.value → readPositive (some w.text) default = w.value) ∧
      (∀ raw, (∀ w : Spelling, w.text = raw → w.value = 0) →
        readPositive (some raw) default = default) ∧
      (∀ raw : String, Refused (stripBlank raw.toList) →
        readPositive (some raw) default = default) ∧
      readPositive none default = default ∧
      (∀ raw, 0 < readPositive raw default) ∧
      ∀ n : Nat, 0 < n → (toString n).length ≤ digitLimit →
        ∀ groups : List (List Char), (∀ g ∈ groups, g ≠ []) →
          groups.flatten = (toString n).toList →
          ∀ before after : List Char, (∀ c ∈ before, isBlank c = true) →
            (∀ c ∈ after, isBlank c = true) → ∀ plus, readPositive
              (some (String.ofList (before ++ (plusSign plus ++ ['_'].intercalate groups) ++ after)))
              default = n := by
  refine ⟨fun w hw => readPositive_text w hw default, fun raw h => readPositive_default h default,
    fun raw h => readPositive_default ?_ default, rfl, fun raw => readPositive_pos raw hdefault, ?_⟩
  · rintro w rfl
    exact h.value_eq_zero
  · intro n hn hfits groups hgroups hflat before after hbefore hafter plus
    obtain ⟨k, rfl, hlength, rfl⟩ := exists_numeral_of_toString hgroups hflat
    exact readPositive_text ⟨before, plus, k, after, hbefore, hafter, hlength ▸ hfits⟩ hn default

/-- Digits of two scripts with an underscore and a zero in front, behind a plus sign and between
two kinds of white space. -/
def twelve : Spelling where
  before := [' ']
  plus := true
  numeral := ⟨[['٠', '1'], ['٢']], by simp, by simp, by
    simp only [List.mem_cons, List.not_mem_nil, or_false, forall_eq_or_imp, forall_eq]
    decide⟩
  after := ['　']
  before_blank := by
    simp only [List.mem_singleton, forall_eq]
    decide
  after_blank := by
    simp only [List.mem_singleton, forall_eq]
    decide
  fits := by decide

theorem twelve_read : 0 < (10000 : Int) ∧ twelve.text = " +٠1_٢　" ∧ 0 < twelve.value ∧
    readPositive (some twelve.text) 10000 = 12 :=
  ⟨by decide, by decide, by decide,
    (readPositive_exactly 10000 (by decide)).1 twelve (by decide)⟩

end LispCore
