import BytecodeVm.Proofs.Composition
import BytecodeVm.Proofs.Numerals

/-! Integer conversions. What is printed for an integer falls into spaces, a sign, the mark of the
base, digits and spaces again, and the digits denote the argument cut to the bits that the length
modifiers select. -/
namespace BytecodeVm.Printf

/-! ## The value -/

/-- The number of bits that length modifiers select, read from left to right. -/
inductive Selects : List UInt8 → Nat → Prop
  | default : Selects [] 32
  | long {ms : List UInt8} {b : UInt8} {n : Nat} (before : Selects ms n)
      (letter : b ∈ ['l', 'z', 'j', 't', 'q'].map ascii) : Selects (ms ++ [b]) 64
  | half {ms : List UInt8} {n : Nat} (before : Selects ms n) (other : n ≠ 16) :
      Selects (ms ++ [ascii 'h']) 16
  | quarter {ms : List UInt8} (before : Selects ms 16) : Selects (ms ++ [ascii 'h']) 8

theorem bits_concat (ms : List UInt8) (b : UInt8) :
    bits (ms ++ [b]) = if b = ascii 'h' then (if bits ms = 16 then 8 else 16) else 64 := by
  rw [bits, List.foldl_append]
  rfl

theorem Selects.eq_bits {ms : List UInt8} {n : Nat} (h : Selects ms n) : n = bits ms := by
  induction h with
  | default => rfl
  | long before letter ih =>
    have other : ascii 'h' ∉ ['l', 'z', 'j', 't', 'q'].map ascii := by decide
    rw [bits_concat, if_neg (ne_of_mem_of_not_mem letter other)]
  | half before other ih => rw [bits_concat, if_pos rfl, if_neg (ih ▸ other)]
  | quarter before ih => rw [bits_concat, if_pos rfl, if_pos ih.symm]

theorem selects_bits {ms : List UInt8} (all : ∀ b ∈ ms, isModifier b = true) :
    Selects ms (bits ms) := by
  induction ms using List.reverseRecOn with
  | nil => exact .default
  | append_singleton ms b ih =>
    simp only [List.mem_append, List.mem_singleton] at all
    have before := ih fun b member => all b (.inl member)
    rw [bits_concat]
    split
    · rename_i letter
      subst letter
      split
      · rename_i sixteen
        exact .quarter (sixteen ▸ before)
      · rename_i other
        exact .half before other
    · rename_i other
      refine .long before ?_
      have letter := all b (.inr rfl)
      simp only [isModifier, List.contains_eq_mem, decide_eq_true_eq] at letter
      simp_all

theorem selects_iff {ms : List UInt8} (all : ∀ b ∈ ms, isModifier b = true) (n : Nat) :
    Selects ms n ↔ n = bits ms :=
  ⟨Selects.eq_bits, fun same => same ▸ selects_bits all⟩

theorem bits_cases (ms : List UInt8) :
    bits ms = 8 ∨ bits ms = 16 ∨ bits ms = 32 ∨ bits ms = 64 := by
  induction ms using List.reverseRecOn with
  | nil => simp [bits]
  | append_singleton ms b ih =>
    rw [bits_concat]
    split_ifs <;> simp

theorem unsigned_bits (ms : List UInt8) (a : UInt64) :
    unsigned (bits ms) a = a.toNat % 2 ^ bits ms := by
  rcases bits_cases ms with n | n | n | n <;> rw [n]
  · exact a.toNat_toUInt8
  · exact a.toNat_toUInt16
  · exact a.toNat_toUInt32
  · exact (Nat.mod_eq_of_lt a.toNat_lt).symm

theorem signed_bits (ms : List UInt8) (a : UInt64) :
    signed (bits ms) a = Int.bmod a.toNat (2 ^ bits ms) := by
  have whole : a.toInt64.toInt = Int.bmod a.toNat (2 ^ 64) := BitVec.toInt_eq_toNat_bmod a.toBitVec
  rcases bits_cases ms with n | n | n | n <;> rw [n]
  · rw [signed, Int64.toInt_toInt8, whole, Int.bmod_bmod_of_dvd (by decide)]
  · rw [signed, Int64.toInt_toInt16, whole, Int.bmod_bmod_of_dvd (by decide)]
  · rw [signed, Int64.toInt_toInt32, whole, Int.bmod_bmod_of_dvd (by decide)]
  · exact whole

/-! ## The digits -/

namespace Field

namespace Base

def numerals : Base → List UInt8
  | .decimal => ['0', '1', '2', '3', '4', '5', '6', '7', '8', '9'].map ascii
  | .octal => ['0', '1', '2', '3', '4', '5', '6', '7'].map ascii
  | .hexLower =>
    ['0', '1', '2', '3', '4', '5', '6', '7', '8', '9', 'a', 'b', 'c', 'd', 'e', 'f'].map ascii
  | .hexUpper =>
    ['0', '1', '2', '3', '4', '5', '6', '7', '8', '9', 'A', 'B', 'C', 'D', 'E', 'F'].map ascii

def denoted (base : Base) (ds : List UInt8) : Nat :=
  Numeral.value base.numerals.length (ds.map base.numerals.idxOf)

def hexMark : Base → List UInt8
  | .decimal | .octal => []
  | .hexLower => ['0', 'x'].map ascii
  | .hexUpper => ['0', 'X'].map ascii

theorem length_numerals (base : Base) : base.numerals.length = base.radix := by
  cases base <;> rfl

theorem two_le_radix (base : Base) : 2 ≤ base.radix := by
  cases base <;> decide

theorem digit_mem (base : Base) : ∀ i < base.radix, base.digit i ∈ base.numerals := by
  cases base <;> decide

theorem idxOf_digit (base : Base) : ∀ i < base.radix, base.numerals.idxOf (base.digit i) = i := by
  cases base <;> decide

def zeroFilled (base : Base) (k n : Nat) : List UInt8 :=
  (List.replicate k 0 ++ Numeral.digits base.radix n).map base.digit

section

variable (base : Base) (k n : Nat)

theorem lt_radix_of_mem : ∀ i ∈ List.replicate k 0 ++ Numeral.digits base.radix n,
    i < base.radix := by
  intro i member
  rcases List.mem_append.mp member with zero | digit
  · rw [List.eq_of_mem_replicate zero]
    exact Nat.lt_of_lt_of_le Nat.zero_lt_two base.two_le_radix
  · exact Numeral.lt_of_mem_digits base.two_le_radix n i digit

theorem mem_numerals_of_mem_zeroFilled : ∀ b ∈ base.zeroFilled k n, b ∈ base.numerals := by
  intro b member
  obtain ⟨i, listed, rfl⟩ := List.mem_map.mp member
  exact base.digit_mem i (base.lt_radix_of_mem k n i listed)

theorem denoted_zeroFilled : base.denoted (base.zeroFilled k n) = n := by
  have places : (base.zeroFilled k n).map base.numerals.idxOf =
      List.replicate k 0 ++ Numeral.digits base.radix n := by
    rw [zeroFilled, List.map_map]
    conv_rhs => rw [← List.map_id (List.replicate k 0 ++ Numeral.digits base.radix n)]
    exact List.map_congr_left fun i member =>
      base.idxOf_digit i (base.lt_radix_of_mem k n i member)
  rw [denoted, places, length_numerals, Numeral.value_zeros, Numeral.value_digits base.two_le_radix]

theorem zeroFilled_ne_nil : base.zeroFilled k n ≠ [] := by
  simp [zeroFilled, Numeral.digits_ne_nil _ _ base.two_le_radix]

theorem length_zeroFilled :
    (base.zeroFilled k n).length = k + (Numeral.digits base.radix n).length := by
  simp [zeroFilled]

theorem zero_cons_zeroFilled : ascii '0' :: base.zeroFilled k n = base.zeroFilled (k + 1) n := by
  rw [zeroFilled, zeroFilled, List.replicate_succ, List.cons_append, List.map_cons]
  rfl

end

end Base

theorem digits_eq (f : Field) (base : Base) (negative : Bool) (n : Nat) :
    f.digits base negative n =
      base.zeroFilled (f.leastDigits negative - (Numeral.digits base.radix n).length) n := by
  simp [digits, Base.zeroFilled, Base.digit, ascii]

theorem exists_marked (base : Base) (alternate : Bool) (k n : Nat) :
    ∃ k', k ≤ k' ∧
      (if alternate then mark base (base.zeroFilled k n) ++ base.zeroFilled k n
        else base.zeroFilled k n) =
        (if alternate then base.hexMark else []) ++ base.zeroFilled k' n := by
  cases alternate with
  | false => exact ⟨k, le_rfl, rfl⟩
  | true =>
    cases base with
    | decimal | hexLower | hexUpper => exact ⟨k, le_rfl, rfl⟩
    | octal =>
      -- the zero in front counts as one more digit
      by_cases lead : (Base.octal.zeroFilled k n).head? = some (ascii '0')
      · refine ⟨k, le_rfl, ?_⟩
        rw [if_pos rfl, mark, if_pos lead]
        rfl
      · refine ⟨k + 1, Nat.le_succ k, ?_⟩
        rw [if_pos rfl, mark, if_neg lead, ← Base.zero_cons_zeroFilled]
        rfl

theorem exists_pad (f : Field) (body : List UInt8) :
    ∃ before after, f.pad (ascii ' ') body =
      List.replicate before (ascii ' ') ++ (body ++ List.replicate after (ascii ' ')) := by
  unfold pad
  split
  · exact ⟨0, _, by simp [List.map_replicate]; rfl⟩
  · exact ⟨_, 0, by simp; rfl⟩

theorem exists_sign (f : Field) (negative : Bool) :
    ∃ k sign, f.sign negative = List.replicate k (ascii ' ') ++ sign ∧
      (sign = [] ∨ sign = [ascii '-'] ∨ sign = [ascii '+']) ∧
      (sign = [ascii '-'] ↔ negative = true) := by
  unfold sign
  split
  · rename_i minus
    exact ⟨0, [ascii '-'], by simp [minus]⟩
  · rename_i plain
    split
    · exact ⟨0, [ascii '+'], rfl, by simp, by simp [plain, ascii]⟩
    · split
      · exact ⟨1, [], by simp [plain]⟩
      · exact ⟨0, [], by simp [plain]⟩

end Field

/-! ## The parts of a number -/

structure Parts where
  before : Nat
  sign : List UInt8
  mark : List UInt8
  digits : List UInt8
  after : Nat

def Parts.text (p : Parts) : List UInt8 :=
  List.replicate p.before (ascii ' ') ++
    (p.sign ++ (p.mark ++ (p.digits ++ List.replicate p.after (ascii ' '))))

/-- The parts are those of the given value. Without digits they are spaces only and stand for
zero. -/
structure Parts.Shows (p : Parts) (base : Field.Base) (alternate : Bool) (precision : Option Nat)
    (value : Int) : Prop where
  sign : p.sign = [] ∨ p.sign = [ascii '-'] ∨ p.sign = [ascii '+']
  negative : p.sign = [ascii '-'] ↔ value < 0
  mark : p.digits ≠ [] → p.mark = if alternate then base.hexMark else []
  digits : ∀ b ∈ p.digits, b ∈ base.numerals
  denotes : (if p.sign = [ascii '-'] then -1 else 1) * (base.denoted p.digits : Int) = value
  enough : ∀ n ∈ precision, n ≤ p.digits.length
  empty : p.digits = [] ↔ precision = some 0 ∧ value = 0
  blank : p.digits = [] → p.sign = [] ∧ p.mark = []

theorem Field.exists_parts (f : Field) (base : Base) (value : Int) :
    ∃ p : Parts, f.number base (decide (value < 0)) value.natAbs = p.text ∧
      p.Shows base f.alternate f.precision value := by
  unfold number
  split
  · rename_i none
    obtain ⟨precision, zero⟩ := none
    obtain rfl := Int.natAbs_eq_zero.mp zero
    refine ⟨⟨f.width.getD 0, [], [], [], 0⟩, by simp [Parts.text], ?_⟩
    exact {
      sign := .inl rfl
      negative := by simp
      mark := by simp
      digits := by simp
      denotes := rfl
      enough := by simp [precision]
      empty := by simp [precision]
      blank := by simp }
  · rename_i some
    obtain ⟨k, more, marked⟩ := exists_marked base f.alternate
      (f.leastDigits (decide (value < 0)) - (Numeral.digits base.radix value.natAbs).length)
      value.natAbs
    obtain ⟨space, sign, signed, isSign, minus⟩ := f.exists_sign (decide (value < 0))
    obtain ⟨before, after, padded⟩ := f.exists_pad (f.sign (decide (value < 0)) ++
      ((if f.alternate then base.hexMark else []) ++ base.zeroFilled k value.natAbs))
    have nonempty := base.zeroFilled_ne_nil k value.natAbs
    rw [decide_eq_true_eq] at minus
    refine ⟨⟨before + space, sign, if f.alternate then base.hexMark else [],
      base.zeroFilled k value.natAbs, after⟩, ?_, ?_⟩
    · simp only [digits_eq, marked]
      rw [padded, signed]
      simp only [Parts.text, List.append_assoc, ← List.replicate_append_replicate]
    · exact {
        sign := isSign
        negative := minus
        mark := fun _ => rfl
        digits := base.mem_numerals_of_mem_zeroFilled k _
        denotes := by
          simp only [base.denoted_zeroFilled, minus]
          split <;> omega
        enough := by
          intro n given
          rw [base.length_zeroFilled]
          simp only [leastDigits, Option.mem_def.mp given] at more
          omega
        empty := by
          rw [← Int.natAbs_eq_zero]
          exact iff_of_false nonempty some
        blank := fun none => absurd none nonempty }

/-! ## Width and precision -/

namespace Directive

def widthGiven (d : Directive) (args : List UInt64) : Nat := (d.width.number (args.getD 0 0)).natAbs

/-- The precision that is asked for. A negative one counts as left out. -/
def precisionGiven (d : Directive) (args : List UInt64) : Option Nat :=
  d.precision.bind fun c =>
    let n := c.number (args.getD d.width.arguments 0)
    if n < 0 then none else some n.toNat

structure Accepted (d : Directive) (args : List UInt64) : Prop where
  width : d.widthGiven args ≤ widest
  precision : ∀ n ∈ d.precisionGiven args, n ≤ widest

end Directive

theorem tooLarge_of_le {n : Nat} (small : n ≤ widest) : tooLarge n = false := by
  refine decide_eq_false ?_
  simp only [maxNumber, widest] at *
  omega

theorem Directive.Accepted.not_tooLarge {d : Directive} {args : List UInt64}
    (accepted : d.Accepted args) :
    (tooLarge (d.widthGiven args) || (d.precisionGiven args).any tooLarge) = false := by
  rw [tooLarge_of_le accepted.width, Bool.false_or]
  cases given : d.precisionGiven args with
  | none => rfl
  | some n => exact tooLarge_of_le (accepted.precision n given)

theorem fst_planWidth (f : Field) (c : Count) (args : List UInt64) :
    (planWidth f c args).1.field.precision = f.precision ∧
      (planWidth f c args).1.field.alternate = f.alternate ∧
      (planWidth f c args).1.refused = tooLarge (c.number (args.getD 0 0)).natAbs := by
  rw [planWidth_eq]
  split
  · rename_i none
    refine ⟨rfl, rfl, ?_⟩
    rw [none, Count.number, decimalValue, List.map_nil, Numeral.value, List.foldl_nil]
    rfl
  · unfold withWidth
    split
    · rename_i zero
      rw [zero]
      exact ⟨rfl, rfl, rfl⟩
    · exact ⟨rfl, rfl, rfl⟩

theorem fst_plan (d : Directive) (args : List UInt64) :
    (plan d args).1.field.precision = d.precisionGiven args ∧
      (plan d args).1.field.alternate = d.flags.contains (ascii '#') ∧
      (plan d args).1.refused =
        (tooLarge (d.widthGiven args) || (d.precisionGiven args).any tooLarge) := by
  obtain ⟨precision, alternate, refused⟩ := fst_planWidth (flagsField d.flags) d.width args
  have left : (planWidth (flagsField d.flags) d.width args).2 = args.drop d.width.arguments := by
    rw [planWidth_eq]
  cases given : d.precision with
  | none =>
    simp only [plan, given, planPrecision, Directive.precisionGiven, Option.bind_none]
    exact ⟨precision, alternate, by rw [refused]; simp [Directive.widthGiven]⟩
  | some c =>
    simp only [plan, given, planPrecision_some, left, getD_drop, Nat.add_zero,
      Directive.precisionGiven, Option.bind_some]
    split
    · exact ⟨precision, alternate, by rw [refused]; simp [Directive.widthGiven]⟩
    · exact ⟨rfl, alternate, by rw [withPrecision, refused]; rfl⟩

/-! ## Whole conversions -/

namespace Directive

def isSigned (d : Directive) : Bool := (['d', 'i'].map ascii).contains d.verb

def isUnsigned (d : Directive) : Bool := (['u', 'x', 'X', 'o'].map ascii).contains d.verb

def base (d : Directive) : Field.Base :=
  if d.verb = ascii 'x' then .hexLower
  else if d.verb = ascii 'X' then .hexUpper
  else if d.verb = ascii 'o' then .octal
  else .decimal

/-- The integer that the low `n` bits of an argument stand for, in two's complement for the signed
verbs. -/
def reduced (d : Directive) (n : Nat) (a : UInt64) : Int :=
  if d.isSigned then Int.bmod a.toNat (2 ^ n) else (a.toNat % 2 ^ n : Nat)

end Directive

section

variable {d : Directive} (t : RegionTable) (args : List UInt64)

theorem output_of_signed (signed : d.isSigned = true) :
    d.base = .decimal ∧ d.output t args = .ok
      (showSigned (plan d args).1 (Printf.signed (bits d.modifiers) (args.getD d.stars 0))) := by
  simp only [Directive.isSigned, List.map_cons, List.map_nil, List.contains_eq_mem, List.mem_cons,
    List.not_mem_nil, or_false, decide_eq_true_eq] at signed
  rcases signed with verb | verb <;>
    simp [Directive.base, Directive.output, expand, next_eq, snd_plan, verb, ascii, Except.map]

theorem output_of_unsigned (unsigned : d.isUnsigned = true) :
    d.isSigned = false ∧ d.output t args = .ok
      (showUnsigned (plan d args).1 d.base
        (Printf.unsigned (bits d.modifiers) (args.getD d.stars 0))) := by
  simp only [Directive.isUnsigned, List.map_cons, List.map_nil, List.contains_eq_mem, List.mem_cons,
    List.not_mem_nil, or_false, decide_eq_true_eq] at unsigned
  rcases unsigned with verb | verb | verb | verb <;>
    simp [Directive.isSigned, Directive.base, Directive.output, expand, next_eq, snd_plan, verb,
      ascii, Except.map]

end

theorem output_of_integer {d : Directive} {args : List UInt64} (accepted : d.Accepted args)
    (integer : d.isSigned = true ∨ d.isUnsigned = true) (t : RegionTable) :
    ∃ v, v = d.reduced (bits d.modifiers) (args.getD d.stars 0) ∧
      d.output t args = .ok ((plan d args).1.field.number d.base (decide (v < 0)) v.natAbs) := by
  have granted : (plan d args).1.refused = false :=
    (fst_plan d args).2.2.trans accepted.not_tooLarge
  rcases integer with signed | unsigned
  · obtain ⟨base, output⟩ := output_of_signed t args signed
    refine ⟨_, by rw [Directive.reduced, if_pos signed, ← signed_bits], ?_⟩
    rw [output, base, showSigned, granted]
    rfl
  · obtain ⟨plain, output⟩ := output_of_unsigned t args unsigned
    refine ⟨_, by rw [Directive.reduced, plain, if_neg Bool.false_ne_true, ← unsigned_bits], ?_⟩
    have nonneg (n : Nat) : decide ((n : Int) < 0) = false := decide_eq_false (by omega)
    rw [output, showUnsigned, granted, nonneg]
    rfl

/-- An integer conversion prints the argument, cut to the bits that its modifiers select, in the
digits of its verb. -/
theorem integer_conversion_exact (t : RegionTable) (d : Directive) (args : List UInt64)
    (proper : d.Proper) (integer : d.verb ∈ ['d', 'i', 'u', 'x', 'X', 'o'].map ascii)
    (accepted : d.Accepted args) :
    ∃ n, (∀ m, Selects d.modifiers m ↔ m = n) ∧
      ∃ p : Parts, format t (ascii '%' :: d.spelling) args = .ok p.text ∧
        p.Shows d.base (d.flags.contains (ascii '#')) (d.precisionGiven args)
          (d.reduced n (args.getD d.stars 0)) := by
  have kind : d.isSigned = true ∨ d.isUnsigned = true := by
    simp only [Directive.isSigned, Directive.isUnsigned, List.contains_eq_mem, decide_eq_true_eq]
    exact List.mem_append.mp integer
  obtain ⟨v, reduced, output⟩ := output_of_integer accepted kind t
  obtain ⟨p, text, shown⟩ := (plan d args).1.field.exists_parts d.base v
  obtain ⟨precision, alternate, -⟩ := fst_plan d args
  refine ⟨bits d.modifiers, selects_iff proper.modifiers, p, ?_, ?_⟩
  · have printed := format_of_proper t [] args proper
    rw [List.append_nil, output, text, format_nil] at printed
    rw [printed]
    simp [bind, Except.bind, pure, Except.pure]
  · rwa [← reduced, ← precision, ← alternate]

theorem integer_conversion_exact_leastByte :
    let d : Directive := ⟨[ascii '+', ascii '0'], .star, some (.digits [ascii '3']),
      [ascii 'h', ascii 'h'], ascii 'd'⟩
    let args : List UInt64 := [0xfffffffffffffffa, 0x80]
    d.Proper ∧ d.verb ∈ ['d', 'i', 'u', 'x', 'X', 'o'].map ascii ∧ d.Accepted args ∧
      Selects d.modifiers 8 ∧
      ∃ p : Parts, format .blank (ascii '%' :: d.spelling) args = .ok p.text ∧
        p.Shows .decimal false (some 3) (-128) := by
  intro d args
  have proper : d.Proper := by decide
  have integer : d.verb ∈ ['d', 'i', 'u', 'x', 'X', 'o'].map ascii := by decide
  have three : d.precisionGiven args = some 3 := by decide
  have accepted : d.Accepted args := ⟨by decide, by simp [three, widest]⟩
  have byte : Selects d.modifiers 8 := .quarter (.half .default (by decide))
  obtain ⟨n, unique, p, printed, shown⟩ :=
    integer_conversion_exact .blank d args proper integer accepted
  obtain rfl := (unique 8).mp byte
  have value : d.reduced 8 (args.getD d.stars 0) = -128 := by decide
  rw [three, value] at shown
  exact ⟨proper, integer, accepted, byte, p, printed, shown⟩

end BytecodeVm.Printf
