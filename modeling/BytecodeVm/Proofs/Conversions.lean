import BytecodeVm.Printf.Directive
import Mathlib

/-! How conversions are written. A directive has one spelling behind its percent sign, and the
scanner reads a directive off a text exactly if the text begins with that spelling and no part of
it could have gone on: the flags take every flag, a number every digit, and so on to the verb,
which is the first byte that no other part takes. -/
namespace BytecodeVm.Printf

def Avoids (p : UInt8 → Bool) (l : List UInt8) : Prop := ∀ b ∈ l.head?, p b = false

section

variable {p : UInt8 → Bool} {l a b : List UInt8}

theorem avoids_append (nonempty : l ≠ []) (rest : List UInt8) :
    Avoids p (l ++ rest) ↔ Avoids p l := by
  rw [Avoids, List.head?_append_of_ne_nil _ nonempty, Avoids]

theorem avoids_cons {x : UInt8} : Avoids p (x :: l) ↔ p x = false := by
  simp [Avoids]

theorem takeWhile_of_avoids (stops : Avoids p l) : l.takeWhile p = [] := by
  cases l with
  | nil => rfl
  | cons x l => simp [avoids_cons.mp stops]

theorem dropWhile_of_avoids (stops : Avoids p l) : l.dropWhile p = l := by
  cases l with
  | nil => rfl
  | cons x l => simp [avoids_cons.mp stops]

theorem avoids_dropWhile (p : UInt8 → Bool) (l : List UInt8) : Avoids p (l.dropWhile p) := by
  induction l with
  | nil => simp [Avoids]
  | cons x l ih =>
    rw [List.dropWhile_cons]
    split
    · exact ih
    · rename_i other
      exact avoids_cons.mpr (Bool.eq_false_iff.mpr other)

theorem cut_eq_iff :
    l.takeWhile p = a ∧ l.dropWhile p = b ↔ l = a ++ b ∧ (∀ x ∈ a, p x = true) ∧ Avoids p b := by
  constructor
  · rintro ⟨rfl, rfl⟩
    exact ⟨List.takeWhile_append_dropWhile.symm, fun x => List.mem_takeWhile_imp,
      avoids_dropWhile p l⟩
  · rintro ⟨rfl, all, stops⟩
    rw [List.takeWhile_append_of_pos all, List.dropWhile_append_of_pos all,
      takeWhile_of_avoids stops, dropWhile_of_avoids stops, List.append_nil]
    exact ⟨rfl, rfl⟩

end

namespace Count

def spelling : Count → List UInt8
  | .digits ds => ds
  | .star => [ascii '*']

/-- Before `rest` the whole of the number is read, and nothing of `rest`. -/
def Ends (rest : List UInt8) : Count → Prop
  | .digits ds =>
    (∀ b ∈ ds, isDigit b = true) ∧ Avoids isDigit rest ∧
      (ds = [] → Avoids (· == ascii '*') rest)
  | .star => True

theorem ends_append {rest : List UInt8} (nonempty : rest ≠ []) (more : List UInt8) (c : Count) :
    c.Ends (rest ++ more) ↔ c.Ends rest := by
  cases c <;> simp [Ends, avoids_append nonempty]

end Count

theorem scanCount_of_avoids {l : List UInt8} (plain : Avoids (· == ascii '*') l) :
    scanCount l = (.digits (l.takeWhile isDigit), l.dropWhile isDigit) := by
  cases l with
  | nil => rfl
  | cons b l =>
    have other : b ≠ ascii '*' := by simpa [avoids_cons] using plain
    simp [scanCount, other]

theorem scanCount_eq_iff {l rest : List UInt8} {c : Count} :
    scanCount l = (c, rest) ↔ l = c.spelling ++ rest ∧ c.Ends rest := by
  constructor
  · intro h
    cases l with
    | nil =>
      cases h
      simp [Count.spelling, Count.Ends, Avoids]
    | cons b l =>
      by_cases star : b = ascii '*'
      · simp only [scanCount, star, if_true, Prod.mk.injEq] at h
        obtain ⟨rfl, rfl⟩ := h
        exact ⟨by rw [star]; rfl, trivial⟩
      · have plain : Avoids (· == ascii '*') (b :: l) := by simpa [avoids_cons] using star
        rw [scanCount_of_avoids plain, Prod.mk.injEq] at h
        obtain ⟨rfl, left⟩ := h
        obtain ⟨whole, all, stops⟩ := cut_eq_iff.mp ⟨rfl, left⟩
        refine ⟨whole, all, stops, fun none => ?_⟩
        rwa [whole, none, List.nil_append] at plain
  · rintro ⟨rfl, ends⟩
    cases c with
    | star => rfl
    | digits ds =>
      obtain ⟨all, stops, plain⟩ := ends
      obtain ⟨taken, left⟩ := cut_eq_iff.mpr ⟨rfl, all, stops⟩
      have first : Avoids (· == ascii '*') (ds ++ rest) := by
        cases ds with
        | nil => exact plain rfl
        | cons d ds =>
          have digit := all d List.mem_cons_self
          refine avoids_cons.mpr (beq_false_of_ne ?_)
          rintro rfl
          cases digit
      rw [Count.spelling, scanCount_of_avoids first, taken, left]

def precisionSpelling : Option Count → List UInt8
  | none => []
  | some c => ascii '.' :: c.spelling

def PrecisionEnds (rest : List UInt8) : Option Count → Prop
  | none => Avoids (· == ascii '.') rest
  | some c => c.Ends rest

theorem precisionEnds_append {rest : List UInt8} (nonempty : rest ≠ []) (more : List UInt8)
    (c : Option Count) : PrecisionEnds (rest ++ more) c ↔ PrecisionEnds rest c := by
  cases c <;> simp [PrecisionEnds, avoids_append nonempty, Count.ends_append nonempty]

theorem scanPrecision_point (l : List UInt8) :
    scanPrecision (ascii '.' :: l) = (some (scanCount l).1, (scanCount l).2) := by
  simp [scanPrecision]

theorem scanPrecision_of_avoids {l : List UInt8} (plain : Avoids (· == ascii '.') l) :
    scanPrecision l = (none, l) := by
  cases l with
  | nil => rfl
  | cons b l =>
    have other : b ≠ ascii '.' := by simpa [avoids_cons] using plain
    simp [scanPrecision, other]

theorem scanPrecision_eq_iff {l rest : List UInt8} {c : Option Count} :
    scanPrecision l = (c, rest) ↔ l = precisionSpelling c ++ rest ∧ PrecisionEnds rest c := by
  constructor
  · intro h
    by_cases plain : Avoids (· == ascii '.') l
    · rw [scanPrecision_of_avoids plain, Prod.mk.injEq] at h
      obtain ⟨rfl, rfl⟩ := h
      exact ⟨rfl, plain⟩
    · cases l with
      | nil => exact absurd (by simp [Avoids]) plain
      | cons b l =>
        obtain rfl : b = ascii '.' := by simpa [avoids_cons] using plain
        rw [scanPrecision_point, Prod.mk.injEq] at h
        obtain ⟨rfl, left⟩ := h
        have read : scanCount l = ((scanCount l).1, rest) := Prod.ext rfl left
        obtain ⟨whole, ends⟩ := scanCount_eq_iff.mp read
        exact ⟨congrArg (ascii '.' :: ·) whole, ends⟩
  · rintro ⟨rfl, ends⟩
    cases c with
    | none => exact scanPrecision_of_avoids ends
    | some c =>
      rw [precisionSpelling, List.cons_append, scanPrecision_point,
        scanCount_eq_iff.mpr ⟨rfl, ends⟩]

namespace Directive

def ending (d : Directive) : List UInt8 := d.modifiers ++ [d.verb]

def precisionOn (d : Directive) : List UInt8 := precisionSpelling d.precision ++ d.ending

def widthOn (d : Directive) : List UInt8 := d.width.spelling ++ d.precisionOn

def spelling (d : Directive) : List UInt8 := d.flags ++ d.widthOn

/-- Every part is made of its own kind of bytes and ends where it has to. -/
structure Proper (d : Directive) : Prop where
  flags : ∀ b ∈ d.flags, isFlag b = true
  afterFlags : Avoids isFlag d.widthOn
  width : d.width.Ends d.precisionOn
  precision : PrecisionEnds d.ending d.precision
  modifiers : ∀ b ∈ d.modifiers, isModifier b = true
  verb : isModifier d.verb = false

theorem ending_ne_nil (d : Directive) : d.ending ≠ [] := by
  simp [ending]

theorem precisionOn_ne_nil (d : Directive) : d.precisionOn ≠ [] := by
  simp [precisionOn, d.ending_ne_nil]

theorem widthOn_ne_nil (d : Directive) : d.widthOn ≠ [] := by
  simp [widthOn, d.precisionOn_ne_nil]

end Directive

theorem scan_eq_some_iff_parts {format rest : List UInt8} {d : Directive} :
    scan format = some (d, rest) ↔ ∃ afterFlags afterWidth afterPrecision,
      (format.takeWhile isFlag = d.flags ∧ format.dropWhile isFlag = afterFlags) ∧
      scanCount afterFlags = (d.width, afterWidth) ∧
      scanPrecision afterWidth = (d.precision, afterPrecision) ∧
      afterPrecision.takeWhile isModifier = d.modifiers ∧
        afterPrecision.dropWhile isModifier = d.verb :: rest := by
  constructor
  · intro h
    simp only [scan] at h
    split at h
    · cases h
    · rename_i verb left ending
      cases h
      exact ⟨_, _, _, ⟨rfl, rfl⟩, rfl, rfl, rfl, ending⟩
  · rintro ⟨_, _, _, ⟨flags, rfl⟩, width, precision, modifiers, verb⟩
    simp only [scan, flags, width, precision, modifiers, verb]

theorem scan_eq_some_iff {format rest : List UInt8} {d : Directive} :
    scan format = some (d, rest) ↔ d.Proper ∧ format = d.spelling ++ rest := by
  simp only [scan_eq_some_iff_parts, cut_eq_iff, scanCount_eq_iff, scanPrecision_eq_iff]
  constructor
  · rintro ⟨_, _, _, ⟨rfl, flags, afterFlags⟩, ⟨rfl, width⟩, ⟨rfl, precision⟩, rfl, modifiers, verb⟩
    have ending : d.modifiers ++ d.verb :: rest = d.ending ++ rest := by simp [Directive.ending]
    have precisionOn :
        precisionSpelling d.precision ++ (d.ending ++ rest) = d.precisionOn ++ rest :=
      (List.append_assoc ..).symm
    have widthOn : d.width.spelling ++ (d.precisionOn ++ rest) = d.widthOn ++ rest :=
      (List.append_assoc ..).symm
    simp only [ending, precisionOn, widthOn] at afterFlags width precision ⊢
    exact ⟨⟨flags, (avoids_append d.widthOn_ne_nil rest).mp afterFlags,
      (Count.ends_append d.precisionOn_ne_nil rest _).mp width,
      (precisionEnds_append d.ending_ne_nil rest _).mp precision, modifiers, avoids_cons.mp verb⟩,
      (List.append_assoc ..).symm⟩
  · rintro ⟨proper, rfl⟩
    exact ⟨d.widthOn ++ rest, d.precisionOn ++ rest, d.ending ++ rest,
      ⟨List.append_assoc .., proper.flags,
        (avoids_append d.widthOn_ne_nil rest).mpr proper.afterFlags⟩,
      ⟨List.append_assoc .., (Count.ends_append d.precisionOn_ne_nil rest _).mpr proper.width⟩,
      ⟨List.append_assoc .., (precisionEnds_append d.ending_ne_nil rest _).mpr proper.precision⟩,
      by simp [Directive.ending], proper.modifiers, avoids_cons.mpr proper.verb⟩

theorem Directive.proper_iff (d : Directive) : d.Proper ↔ scan d.spelling = some (d, []) := by
  simp [scan_eq_some_iff]

instance (d : Directive) : Decidable d.Proper := decidable_of_iff _ d.proper_iff.symm

example : Directive.Proper ⟨[ascii '-', ascii '0'], .digits [ascii '8'], some .star,
    [ascii 'l', ascii 'l'], ascii 'x'⟩ := by
  decide

end BytecodeVm.Printf
