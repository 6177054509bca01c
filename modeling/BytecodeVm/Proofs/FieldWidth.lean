import BytecodeVm.Proofs.ByteStrings
import BytecodeVm.Proofs.IntegerFields

/-! Field widths. A field is filled up until it has as many characters as its width asks for, where
a byte that belongs to no character counts as one. The filling is told apart from the characters
beside it whatever they are, so a conversion prints at least as many characters as it was asked for.
The pointer verb is the exception: it prints the address alone, whatever the width. -/
namespace BytecodeVm

namespace Utf8

open Printf

theorem between_mono {lo hi lo' hi' b : UInt8} (low : lo' ≤ lo) (high : hi ≤ hi')
    (h : between lo hi b = true) : between lo' hi' b = true := by
  simp only [between, Bool.and_eq_true, decide_eq_true_eq] at *
  exact ⟨UInt8.le_trans low h.1, UInt8.le_trans h.2 high⟩

theorem isContinuation_of_secondByte {b c : UInt8} (h : secondByte b c = true) :
    isContinuation c = true := by
  unfold secondByte at h
  split_ifs at h
  · exact between_mono (by decide) (by decide) h
  · exact between_mono (by decide) (by decide) h
  · exact between_mono (by decide) (by decide) h
  · exact between_mono (by decide) (by decide) h
  · exact h

theorem secondByte_eq_false {c : UInt8} (other : isContinuation c = false) (b : UInt8) :
    secondByte b c = false := by
  refine Bool.eq_false_iff.mpr fun second => ?_
  rw [isContinuation_of_secondByte second] at other
  cases other

theorem firstLength_le (b : UInt8) (rest : List UInt8) :
    firstLength (b :: rest) ≤ (b :: rest).length := by
  unfold firstLength
  repeat' split
  all_goals simp_all

theorem firstLength_append (b : UInt8) (rest : List UInt8) {more : List UInt8}
    (starts : Avoids isContinuation more) :
    firstLength (b :: (rest ++ more)) = firstLength (b :: rest) := by
  match rest, more with
  | rest, [] => rw [List.append_nil]
  | [], m :: more =>
    have other := avoids_cons.mp starts
    simp [firstLength, other, secondByte_eq_false other]
  | [c], m :: more =>
    have other := avoids_cons.mp starts
    cases more <;> simp [firstLength, other]
  | [c, d], m :: more =>
    have other := avoids_cons.mp starts
    simp [firstLength, other]
  | c :: d :: e :: rest, _ => rfl

theorem splitFrom_append {l more : List UInt8} {skip : Nat} (inside : skip ≤ l.length)
    (starts : Avoids isContinuation more) :
    splitFrom skip (l ++ more) = splitFrom skip l ++ characters more := by
  induction l generalizing skip with
  | nil =>
    obtain rfl := Nat.le_zero.mp inside
    rw [List.nil_append, splitFrom, List.nil_append, characters]
  | cons b l ih =>
    cases skip with
    | zero =>
      have fits := firstLength_le b l
      have first : (b :: (l ++ more)).take (firstLength (b :: l)) =
          (b :: l).take (firstLength (b :: l)) :=
        List.take_append_of_le_length fits
      rw [List.length_cons] at fits
      rw [List.cons_append, splitFrom, splitFrom, firstLength_append b l starts, first,
        ih (by omega), List.cons_append]
    | succ skip =>
      rw [List.cons_append, splitFrom, splitFrom, ih (Nat.le_of_succ_le_succ inside)]

theorem characters_append (l : List UInt8) {more : List UInt8}
    (starts : Avoids isContinuation more) :
    characters (l ++ more) = characters l ++ characters more :=
  splitFrom_append (Nat.zero_le _) starts

section

variable {b : UInt8} (plain : b < 0x80)

include plain

theorem between_eq_false {lo hi : UInt8} (high : 0x80 ≤ lo) : between lo hi b = false := by
  rw [between, decide_eq_false (UInt8.not_le.mpr (UInt8.lt_of_lt_of_le plain high)),
    Bool.false_and]

theorem characters_cons (rest : List UInt8) : characters (b :: rest) = [b] :: characters rest := by
  have first : firstLength (b :: rest) = 1 := by
    cases rest with
    | nil => rfl
    | cons c rest =>
      have two : between 0xc2 0xdf b = false := between_eq_false plain (by decide)
      have three : between 0xe0 0xef b = false := between_eq_false plain (by decide)
      have four : between 0xf0 0xf4 b = false := between_eq_false plain (by decide)
      simp [firstLength, two, three, four]
  rw [characters, splitFrom, first]
  rfl

theorem count_replicate_append (k : Nat) (rest : List UInt8) :
    count (List.replicate k b ++ rest) = k + count rest := by
  induction k with
  | zero => simp
  | succ k ih =>
    rw [List.replicate_succ, List.cons_append, count, characters_cons plain, List.length_cons,
      ← count, ih]
    omega

theorem count_append_replicate (k : Nat) (l : List UInt8) :
    count (l ++ List.replicate k b) = count l + k := by
  have starts : Avoids isContinuation (List.replicate k b) := by
    intro c first
    rw [List.eq_of_mem_replicate (List.mem_of_mem_head? first)]
    exact between_eq_false plain (UInt8.le_refl _)
  have filling := count_replicate_append plain k []
  rw [List.append_nil] at filling
  rw [count, characters_append l starts, List.length_append, ← count, ← count, filling]
  rfl

end

theorem count_of_plain {l : List UInt8} (plain : ∀ b ∈ l, b < 0x80) : count l = l.length := by
  induction l with
  | nil => rfl
  | cons b l ih =>
    rw [List.forall_mem_cons] at plain
    rw [count, characters_cons plain.1, List.length_cons, ← count, ih plain.2, List.length_cons]

end Utf8

namespace Printf

namespace Field

section

variable (f : Field)

theorem count_pad {fill : UInt8} (plain : fill < 0x80) (body : List UInt8) :
    Utf8.count (f.pad fill body) = max (Utf8.count body) (f.width.getD 0) := by
  unfold pad
  dsimp only
  split
  · rw [List.map_replicate, Utf8.count_append_replicate (by decide)]
    omega
  · rw [Utf8.count_replicate_append plain]
    omega

theorem width_le_count_padText (body : List UInt8) :
    f.width.getD 0 ≤ Utf8.count (f.padText body) := by
  have plain : (if f.zero then ascii '0' else ascii ' ') < 0x80 := by split <;> decide
  rw [padText, count_pad f plain]
  exact le_max_right _ _

theorem width_le_count_number (base : Base) (negative : Bool) (n : Nat) :
    f.width.getD 0 ≤ Utf8.count (f.number base negative n) := by
  unfold number
  split
  · have spaces := Utf8.count_append_replicate (b := ascii ' ') (by decide) (f.width.getD 0) []
    rw [List.nil_append] at spaces
    rw [spaces]
    exact Nat.le_add_left _ _
  · rw [count_pad f (by decide)]
    exact le_max_right _ _

theorem width_le_count_text (s : List UInt8) : f.width.getD 0 ≤ Utf8.count (f.text s) := by
  unfold text
  split <;> exact f.width_le_count_padText _

end

end Field

theorem width_plan (d : Directive) (args : List UInt64) :
    (plan d args).1.field.width.getD 0 = d.widthGiven args := by
  have asked : (planWidth (flagsField d.flags) d.width args).1.field.width.getD 0 =
      d.widthGiven args := by
    rw [planWidth_eq, Directive.widthGiven]
    split
    · rename_i none
      rw [none]
      rfl
    · unfold withWidth
      split
      · rename_i zero
        rw [zero]
        rfl
      · rfl
  rw [← asked]
  cases given : d.precision with
  | none => simp only [plan, given, planPrecision]
  | some c =>
    simp only [plan, given, planPrecision_some]
    split <;> rfl

section

variable {d : Directive} (t : RegionTable) (args : List UInt64)

theorem output_of_char (verb : d.verb = ascii 'c') :
    d.output t args = .ok (showChar (plan d args).1 (args.getD d.stars 0).toUInt8) := by
  simp [Directive.output, expand, next_eq, snd_plan, verb, ascii, Except.map]

theorem output_of_string (verb : d.verb = ascii 's') :
    d.output t args =
      (CString.read t (args.getD d.stars 0) maxString).map (showText (plan d args).1) := by
  have named : d.address? args = some (args.getD d.stars 0) := by
    rw [Directive.address?, if_pos verb, snd_plan, next_eq, getD_drop, Nat.add_zero]
  rw [Directive.output, expand_of_string named]
  cases CString.read t (args.getD d.stars 0) maxString <;> rfl

theorem output_of_pointer (verb : d.verb = ascii 'p') :
    d.output t args = .ok (Field.bytes ("0x" ++ Numeral.hex (args.getD d.stars 0).toNat)) := by
  simp [Directive.output, expand, next_eq, snd_plan, verb, ascii, Except.map]

end

theorem count_pointer (n : Nat) :
    Utf8.count (Field.bytes ("0x" ++ Numeral.hex n)) = 2 + (Numeral.digits 16 n).length := by
  let written := '0' :: 'x' :: (Numeral.digits 16 n).map Numeral.digitChar
  have digit : ∀ i < 16, (Numeral.digitChar i).toNat < 128 := by decide
  have plain : ∀ c ∈ written, c.toNat < 128 := by
    refine List.forall_mem_cons.mpr ⟨by decide, List.forall_mem_cons.mpr ⟨by decide, ?_⟩⟩
    intro c member
    obtain ⟨i, listed, rfl⟩ := List.mem_map.mp member
    exact digit i (Numeral.lt_of_mem_digits (by decide) n i listed)
  have text : "0x" ++ Numeral.hex n = String.ofList written :=
    (@String.ofList_append ['0', 'x'] _).symm
  have bytes : Field.bytes ("0x" ++ Numeral.hex n) = written.map fun c => c.toNat.toUInt8 := by
    rw [text]
    exact Bytes.toList_ofText_of_lt plain
  rw [bytes, Utf8.count_of_plain]
  · simp only [written, List.length_map, List.length_cons]
    omega
  · intro b member
    obtain ⟨c, listed, rfl⟩ := List.mem_map.mp member
    have small := plain c listed
    rw [UInt8.lt_iff_toNat_lt, Nat.toUInt8, UInt8.toNat_ofNat']
    exact Nat.lt_of_le_of_lt (Nat.mod_le _ _) small

theorem format_spelling {d : Directive} (proper : d.Proper) (t : RegionTable)
    (args : List UInt64) : format t (ascii '%' :: d.spelling) args = d.output t args := by
  have printed := format_of_proper t [] args proper
  rw [List.append_nil] at printed
  rw [printed]
  cases d.output t args with
  | error e => rfl
  | ok out => simp [format_nil, bind, Except.bind, pure, Except.pure]

theorem width_le_count_output {t : RegionTable} {d : Directive} {args : List UInt64}
    {out : List UInt8} (accepted : d.Accepted args)
    (padded : d.verb ∈ ['d', 'i', 'u', 'x', 'X', 'o', 'c', 's'].map ascii)
    (h : d.output t args = .ok out) : d.widthGiven args ≤ Utf8.count out := by
  have granted : (plan d args).1.refused = false :=
    (fst_plan d args).2.2.trans accepted.not_tooLarge
  have kind : (d.isSigned = true ∨ d.isUnsigned = true) ∨ d.verb = ascii 'c' ∨
      d.verb = ascii 's' := by
    simp only [Directive.isSigned, Directive.isUnsigned, List.contains_eq_mem, decide_eq_true_eq]
    rcases List.mem_append.mp (show d.verb ∈
      ['d', 'i', 'u', 'x', 'X', 'o'].map ascii ++ ['c', 's'].map ascii from padded) with
      integer | other
    · exact .inl (List.mem_append.mp integer)
    · exact .inr (by simpa using other)
  rw [← width_plan]
  rcases kind with integer | verb | verb
  · obtain ⟨v, -, output⟩ := output_of_integer accepted integer t
    cases output.symm.trans h
    exact Field.width_le_count_number _ _ _ _
  · rw [output_of_char t args verb, showChar, granted] at h
    cases h
    exact Field.width_le_count_padText _ _
  · rw [output_of_string t args verb] at h
    cases read : CString.read t (args.getD d.stars 0) maxString with
    | error e =>
      rw [read] at h
      cases h
    | ok s =>
      rw [read, Except.map, showText, granted] at h
      cases h
      exact Field.width_le_count_text _ s

theorem output_eq_error_iff (t : RegionTable) (d : Directive) (args : List UInt64)
    (e : StringError) :
    d.output t args = .error e ↔
      d.verb = ascii 's' ∧ CString.read t (args.getD d.stars 0) maxString = .error e := by
  by_cases verb : d.verb = ascii 's'
  · rw [output_of_string t args verb]
    cases CString.read t (args.getD d.stars 0) maxString <;> simp [Except.map, verb]
  · have nothing : d.address? args = none := if_neg verb
    obtain ⟨out, expanded, -⟩ := expand_of_no_string nothing t (ascii '%' :: d.spelling)
    simp [Directive.output, expanded, Except.map, verb]

/-- A conversion fails only for a string that cannot be read. It prints at least as many characters
as its width asks for, be it to the left or to the right. The pointer verb is the exception: it
prints the address in as many characters as that takes, whatever the width. -/
theorem field_width_honoured (t : RegionTable) (d : Directive) (args : List UInt64)
    (proper : d.Proper)
    (known : d.verb ∈ ['d', 'i', 'u', 'x', 'X', 'o', 'c', 's', 'p'].map ascii)
    (accepted : d.Accepted args) :
    (∀ e, format t (ascii '%' :: d.spelling) args = .error e ↔
      d.verb = ascii 's' ∧ CString.read t (args.getD d.stars 0) maxString = .error e) ∧
    (d.verb ≠ ascii 'p' → ∀ out, format t (ascii '%' :: d.spelling) args = .ok out →
      d.widthGiven args ≤ Utf8.count out) ∧
    (d.verb = ascii 'p' → ∃ out, format t (ascii '%' :: d.spelling) args = .ok out ∧
      out = Field.bytes ("0x" ++ Numeral.hex (args.getD d.stars 0).toNat) ∧
      Utf8.count out = 2 + (Numeral.digits 16 (args.getD d.stars 0).toNat).length) := by
  rw [format_spelling proper]
  refine ⟨output_eq_error_iff t d args, fun other out printed => ?_, fun verb => ?_⟩
  · rcases List.mem_append.mp (show d.verb ∈
      ['d', 'i', 'u', 'x', 'X', 'o', 'c', 's'].map ascii ++ ['p'].map ascii from known) with
      padded | pointer
    · exact width_le_count_output accepted padded printed
    · exact absurd (List.mem_singleton.mp pointer) other
  · exact ⟨_, output_of_pointer t args verb, rfl, count_pointer _⟩

def oddText : RegionTable :=
  .fresh (Bytes.zeros 0) (Bytes.zeros 0) (Bytes.ofList [0xc3, 0xa9, 0xff, 0x41, 0])

theorem field_width_honoured_oddText :
    let d : Directive := ⟨[ascii '0'], .star, some (.digits [ascii '2']), [], ascii 's'⟩
    let args : List UInt64 := [0xfffffffffffffffb, RegionTable.rodataBase]
    let out : List UInt8 := [0xc3, 0xa9, 0xff, 0x20, 0x20, 0x20]
    d.Proper ∧ d.verb ∈ ['d', 'i', 'u', 'x', 'X', 'o', 'c', 's', 'p'].map ascii ∧
      d.Accepted args ∧ d.verb ≠ ascii 'p' ∧
      format oddText (ascii '%' :: d.spelling) args = .ok out ∧ 5 ≤ Utf8.count out := by
  intro d args out
  have proper : d.Proper := by decide
  have known : d.verb ∈ ['d', 'i', 'u', 'x', 'X', 'o', 'c', 's', 'p'].map ascii := by decide
  have two : d.precisionGiven args = some 2 := by decide
  have accepted : d.Accepted args := ⟨by decide, by simp [two, widest]⟩
  have other : d.verb ≠ ascii 'p' := by decide
  have five : d.widthGiven args = 5 := by decide
  have printed : format oddText (ascii '%' :: d.spelling) args = .ok out :=
    (format_spelling proper oddText args).trans rfl
  have wide := (field_width_honoured oddText d args proper known accepted).2.1 other out printed
  exact ⟨proper, known, accepted, other, printed, five ▸ wide⟩

/-- An address of one digit is printed in three characters, though twenty were asked for. -/
theorem pointer_narrower_than_width :
    let d : Directive := ⟨[], .digits [ascii '2', ascii '0'], none, [], ascii 'p'⟩
    d.Proper ∧ d.verb ∈ ['d', 'i', 'u', 'x', 'X', 'o', 'c', 's', 'p'].map ascii ∧
      d.Accepted [1] ∧
      ∃ out, format .blank (ascii '%' :: d.spelling) [1] = .ok out ∧
        Utf8.count out < d.widthGiven [1] := by
  intro d
  have proper : d.Proper := by decide
  have unlimited : d.precisionGiven [1] = none := by decide
  refine ⟨proper, by decide, ⟨by decide, by simp [unlimited]⟩, ['0', 'x', '1'].map ascii, ?_,
    by decide⟩
  have digits : Numeral.digits 16 1 = [1] := by simp [Numeral.digits, Numeral.positional]
  have hex : Numeral.hex 1 = "1" := by
    rw [Numeral.hex, Numeral.text, digits]
    rfl
  have value : (([1] : List UInt64).getD d.stars 0).toNat = 1 := rfl
  rw [format_spelling proper, output_of_pointer _ _ rfl, value, hex]
  rfl

end Printf

end BytecodeVm
