import BytecodeVm.Printf.Format
import Mathlib

/-! How much a format can write, and which strings it reads. Numbers that would make a field too
wide are refused, and so every directive writes a limited number of bytes. A format fails exactly
if one of the strings it names cannot be read. -/
namespace BytecodeVm

namespace Numeral

theorem length_positional_le (base : Nat) {k n : Nat} (small : n < 2 ^ k) :
    (positional base n).length ≤ k := by
  induction k generalizing n with
  | zero =>
    have zero : n = 0 := by simpa using small
    simp [zero, positional]
  | succ k ih =>
    rw [positional]
    split
    · simp
    · have half : n / base ≤ n / 2 := Nat.div_le_div_left (by omega) (by omega)
      have shorter := ih (n := n / base) (by omega)
      simp only [List.length_append, List.length_singleton]
      omega

theorem length_digits_le (base : Nat) {n : Nat} (small : n < 2 ^ 64) :
    (digits base n).length ≤ 64 := by
  rw [digits]
  split
  · simp
  · exact length_positional_le base small

theorem utf8ByteSize_text_le (base : Nat) {n : Nat} (small : n < 2 ^ 64) :
    (text base n).utf8ByteSize ≤ 256 := by
  have wide : ∀ l : List Char, String.utf8Len l ≤ 4 * l.length := by
    intro l
    induction l with
    | nil => simp
    | cons c l ih =>
      have := c.utf8Size_le_four
      simp only [String.utf8Len_cons, List.length_cons]
      omega
  have short := length_digits_le base small
  have := wide ((digits base n).map digitChar)
  rw [List.length_map] at this
  rw [text, String.utf8ByteSize_ofList]
  omega

theorem utf8ByteSize_signed_le {i : Int} (small : i.natAbs < 2 ^ 64) :
    (signed i).utf8ByteSize ≤ 257 := by
  cases i with
  | ofNat n =>
    have := utf8ByteSize_text_le 10 (n := n) small
    simp only [signed, decimal]
    omega
  | negSucc n =>
    have := utf8ByteSize_text_le 10 (n := n + 1) small
    have sign : "-".utf8ByteSize = 1 := rfl
    simp only [signed, decimal, String.utf8ByteSize_append]
    omega

end Numeral

namespace Utf8

theorem firstLength_pos (bytes : List UInt8) : 0 < firstLength bytes := by
  unfold firstLength
  repeat' split
  all_goals simp

theorem flatten_splitFrom (skip : Nat) (bytes : List UInt8) :
    (splitFrom skip bytes).flatten = bytes.drop skip := by
  induction bytes generalizing skip with
  | nil => simp [splitFrom]
  | cons b rest ih =>
    cases skip with
    | zero =>
      obtain ⟨n, first⟩ := Nat.exists_eq_succ_of_ne_zero (firstLength_pos (b :: rest)).ne'
      simp [splitFrom, first, ih]
    | succ skip => simp [splitFrom, ih]

theorem length_flatten_take_le (count : Nat) (bytes : List UInt8) :
    ((characters bytes).take count).flatten.length ≤ bytes.length := by
  have part := (List.take_sublist count (characters bytes)).flatten.length_le
  rwa [characters, flatten_splitFrom, List.drop_zero] at part

theorem length_ofLatin_le (b : UInt8) : (ofLatin b).length ≤ 2 := by
  unfold ofLatin
  split <;> simp

end Utf8

theorem CString.length_readFrom_le {t : RegionTable} {addr : UInt64} {left i : Nat} {s : List UInt8}
    (h : readFrom t addr left i = .ok s) : s.length ≤ left := by
  induction left generalizing i s with
  | zero =>
    cases h
    exact Nat.le_refl 0
  | succ left ih =>
    rw [readFrom] at h
    split at h
    · cases h
    · split at h
      · cases h
      · split at h
        · cases h
          exact Nat.zero_le _
        · cases rest : readFrom t addr left (i + 1) with
          | error e => simp [rest, Except.map] at h
          | ok s' =>
            simp only [rest, Except.map, Except.ok.injEq] at h
            have := ih rest
            rw [← h, List.length_cons]
            omega

namespace Printf

def widest : Nat := 10000009

def fieldLimit : Nat := 20100000

theorem le_widest_of_not_tooLarge {n : Nat} (h : tooLarge n = false) : n ≤ widest := by
  have := of_decide_eq_false h
  simp only [maxNumber, widest] at *
  omega

namespace Field

structure Small (f : Field) : Prop where
  width : f.width.getD 0 ≤ widest
  precision : f.precision.getD 0 ≤ widest

theorem length_bytes (s : String) : (bytes s).length = s.utf8ByteSize := rfl

theorem length_pad_le (f : Field) (fill : UInt8) (body : List UInt8) :
    (f.pad fill body).length ≤ body.length + f.width.getD 0 := by
  unfold pad
  split
  · simp only [List.length_append, List.length_map, List.length_replicate]
    omega
  · simp only [List.length_append, List.length_replicate]
    omega

theorem length_sign_le (f : Field) (negative : Bool) : (f.sign negative).length ≤ 1 := by
  unfold sign
  repeat' split
  all_goals simp

theorem length_mark_le (base : Base) (ds : List UInt8) : (mark base ds).length ≤ 2 := by
  unfold mark
  cases base with
  | decimal => simp
  | octal =>
    dsimp only
    split <;> simp
  | hexLower | hexUpper => exact Nat.le_refl 2

theorem leastDigits_le {f : Field} (small : f.Small) (negative : Bool) :
    f.leastDigits negative ≤ widest := by
  have width := small.width
  have precision := small.precision
  unfold leastDigits
  split
  · rename_i p given
    simpa [given] using precision
  · split <;> omega

theorem length_digits_le {f : Field} (small : f.Small) (base : Base) (negative : Bool) {n : Nat}
    (value : n < 2 ^ 64) : (f.digits base negative n).length ≤ widest + 64 := by
  have least := leastDigits_le small negative
  have own := Numeral.length_digits_le base.radix value
  simp only [digits, List.length_append, List.length_replicate, List.length_map]
  omega

theorem length_number_le {f : Field} (small : f.Small) (base : Base) (negative : Bool) {n : Nat}
    (value : n < 2 ^ 64) : (f.number base negative n).length ≤ fieldLimit := by
  have width := small.width
  have digits := length_digits_le small base negative value
  have sign := length_sign_le f negative
  have mark := length_mark_le base (f.digits base negative n)
  unfold number
  split
  · simp only [List.length_replicate, fieldLimit, widest] at *
    omega
  · have padded := length_pad_le f (ascii ' ') (f.sign negative ++
      if f.alternate then Field.mark base (f.digits base negative n) ++ f.digits base negative n
      else f.digits base negative n)
    refine padded.trans ?_
    rw [List.length_append]
    simp only [fieldLimit, widest] at *
    split
    · rw [List.length_append]
      omega
    · omega

theorem length_text_le {f : Field} (small : f.Small) {s : List UInt8}
    (short : s.length ≤ maxString) : (f.text s).length ≤ fieldLimit := by
  have width := small.width
  have padded (body : List UInt8) (part : body.length ≤ s.length) :
      (f.padText body).length ≤ fieldLimit := by
    have := length_pad_le f (if f.zero then ascii '0' else ascii ' ') body
    simp only [padText, fieldLimit, widest, maxString] at *
    omega
  unfold text
  split
  · exact padded s (Nat.le_refl _)
  · exact padded _ (Utf8.length_flatten_take_le _ s)

theorem length_char_le {f : Field} (small : f.Small) (b : UInt8) :
    (f.char b).length ≤ fieldLimit := by
  have width := small.width
  have body := Utf8.length_ofLatin_le b
  have padded := length_pad_le f (if f.zero then ascii '0' else ascii ' ') (Utf8.ofLatin b)
  simp only [char, padText, fieldLimit, widest] at *
  omega

end Field

def Plan.Sound (p : Plan) : Prop := p.refused = false → p.field.Small

theorem sound_withWidth {f : Field} (small : f.Small) (w : Int) : (withWidth f w).Sound := by
  unfold withWidth
  split
  · exact fun _ => ⟨small.width, small.precision⟩
  · exact fun accepted => ⟨le_widest_of_not_tooLarge accepted, small.precision⟩

theorem sound_planWidth {f : Field} (small : f.Small) (count : Count) (args : List UInt64) :
    (planWidth f count args).1.Sound := by
  unfold planWidth
  split
  · exact fun _ => small
  · exact sound_withWidth small _
  · exact sound_withWidth small _

theorem Plan.Sound.withPrecision {p : Plan} (h : p.Sound) (n : Nat) :
    (Printf.withPrecision p n).Sound := by
  intro accepted
  simp only [Printf.withPrecision, Bool.or_eq_false_iff] at accepted
  exact ⟨(h accepted.1).width, le_widest_of_not_tooLarge accepted.2⟩

theorem Plan.Sound.planPrecision {p : Plan} (h : p.Sound) (count : Option Count)
    (args : List UInt64) : (Printf.planPrecision p count args).1.Sound := by
  unfold Printf.planPrecision
  split
  · exact h
  · exact h.withPrecision _
  · dsimp only
    split
    · exact h
    · exact h.withPrecision _

theorem sound_plan (d : Directive) (args : List UInt64) : (plan d args).1.Sound := by
  have flags : (flagsField d.flags).Small := ⟨Nat.zero_le _, Nat.zero_le _⟩
  exact (sound_planWidth flags d.width args).planPrecision d.precision _

theorem length_refusal_le {kind : String} {value : List UInt8} (name : kind.utf8ByteSize ≤ 6)
    (short : value.length ≤ 257) : (refusal kind value).length ≤ fieldLimit := by
  have first : "%!(NOVERB)%!(EXTRA ".utf8ByteSize = 19 := rfl
  have middle : "=".utf8ByteSize = 1 := rfl
  have last : ")".utf8ByteSize = 1 := rfl
  simp only [refusal, List.length_append, Field.length_bytes, String.utf8ByteSize_append, first,
    middle, last, fieldLimit]
  omega

section

variable {p : Plan} (sound : p.Sound)

include sound

theorem length_showSigned_le {value : Int} (small : value.natAbs < 2 ^ 64) :
    (showSigned p value).length ≤ fieldLimit := by
  unfold showSigned
  split
  · exact length_refusal_le (by decide) (Numeral.utf8ByteSize_signed_le small)
  · rename_i accepted
    exact Field.length_number_le (sound (Bool.eq_false_iff.mpr accepted)) _ _ small

theorem length_showUnsigned_le (base : Field.Base) {value : Nat} (small : value < 2 ^ 64) :
    (showUnsigned p base value).length ≤ fieldLimit := by
  unfold showUnsigned
  split
  · have short := Numeral.utf8ByteSize_text_le 10 small
    exact length_refusal_le (by decide) (short.trans (by decide))
  · rename_i accepted
    exact Field.length_number_le (sound (Bool.eq_false_iff.mpr accepted)) _ _ small

theorem length_showChar_le (value : UInt8) : (showChar p value).length ≤ fieldLimit := by
  unfold showChar
  split
  · have small : value.toNat < 2 ^ 64 := value.toNat_lt.trans (by decide)
    have short := Numeral.utf8ByteSize_text_le 10 small
    exact length_refusal_le (by decide) (short.trans (by decide))
  · rename_i accepted
    exact Field.length_char_le (sound (Bool.eq_false_iff.mpr accepted)) _

theorem length_showText_le {s : List UInt8} (short : s.length ≤ maxString) :
    (showText p s).length ≤ fieldLimit := by
  unfold showText
  split
  · exact length_refusal_le (by decide) (short.trans (by decide))
  · rename_i accepted
    exact Field.length_text_le (sound (Bool.eq_false_iff.mpr accepted)) short

end

theorem unsigned_lt (bits : Nat) (a : UInt64) : unsigned bits a < 2 ^ 64 := by
  unfold unsigned
  split
  · exact a.toUInt8.toNat_lt.trans (by decide)
  · exact a.toUInt16.toNat_lt.trans (by decide)
  · exact a.toUInt32.toNat_lt.trans (by decide)
  · exact a.toNat_lt

theorem natAbs_signed_lt (bits : Nat) (a : UInt64) : (signed bits a).natAbs < 2 ^ 64 := by
  unfold signed
  split
  · have low := Int8.le_toInt a.toInt64.toInt8
    have high := Int8.toInt_lt a.toInt64.toInt8
    omega
  · have low := Int16.le_toInt a.toInt64.toInt16
    have high := Int16.toInt_lt a.toInt64.toInt16
    omega
  · have low := Int32.le_toInt a.toInt64.toInt32
    have high := Int32.toInt_lt a.toInt64.toInt32
    omega
  · have low := Int64.le_toInt a.toInt64
    have high := Int64.toInt_lt a.toInt64
    omega

/-! ## Which strings a directive reads -/

namespace Directive

def takesArgument (d : Directive) : Bool :=
  (['d', 'i', 'u', 'x', 'X', 'o', 'c', 's', 'p'].map ascii).contains d.verb

def after (d : Directive) (args : List UInt64) : List UInt64 :=
  if d.takesArgument then (next (plan d args).2).2 else (plan d args).2

def address? (d : Directive) (args : List UInt64) : Option UInt64 :=
  if d.verb = ascii 's' then some (next (plan d args).2).1 else none

end Directive

theorem expand_of_no_string {d : Directive} {args : List UInt64} (none : d.address? args = none)
    (t : RegionTable) (written : List UInt8) :
    ∃ out, expand t d written args = .ok (out, d.after args) ∧
      out.length ≤ max written.length fieldLimit := by
  have sound := sound_plan d args
  have other : d.verb ≠ ascii 's' := by
    intro verb
    simp [Directive.address?, verb] at none
  have field {out : List UInt8} (taken : d.takesArgument = true) (short : out.length ≤ fieldLimit) :
      ∃ out', (Except.ok (out, (next (plan d args).2).2) : Except StringError _) =
        .ok (out', d.after args) ∧ out'.length ≤ max written.length fieldLimit :=
    ⟨out, by rw [Directive.after, if_pos taken], short.trans (le_max_right _ _)⟩
  unfold expand
  dsimp only
  split
  · rename_i verb
    have kept : d.takesArgument = false := by simp [Directive.takesArgument, verb, ascii]
    refine ⟨_, by rw [Directive.after, kept]; rfl, ?_⟩
    exact le_max_of_le_right (by decide)
  split
  · rename_i verb
    have taken : d.takesArgument = true := by
      rcases verb with verb | verb <;> simp [Directive.takesArgument, verb]
    exact field taken (length_showSigned_le sound (natAbs_signed_lt _ _))
  split
  · rename_i verb
    exact field (by simp [Directive.takesArgument, verb])
      (length_showUnsigned_le sound _ (unsigned_lt _ _))
  split
  · rename_i verb
    exact field (by simp [Directive.takesArgument, verb])
      (length_showUnsigned_le sound _ (unsigned_lt _ _))
  split
  · rename_i verb
    exact field (by simp [Directive.takesArgument, verb])
      (length_showUnsigned_le sound _ (unsigned_lt _ _))
  split
  · rename_i verb
    exact field (by simp [Directive.takesArgument, verb])
      (length_showUnsigned_le sound _ (unsigned_lt _ _))
  split
  · rename_i verb
    exact field (by simp [Directive.takesArgument, verb]) (length_showChar_le sound _)
  -- the string verb is ruled out
  split
  · rename_i verb
    have short := Numeral.utf8ByteSize_text_le 16 (next (plan d args).2).1.toNat_lt
    refine field (by simp [Directive.takesArgument, verb]) ?_
    have mark : "0x".utf8ByteSize = 2 := rfl
    simp only [Field.length_bytes, String.utf8ByteSize_append, Numeral.hex, mark, fieldLimit]
    omega
  · have kept : d.takesArgument = false := by
      simp_all [Directive.takesArgument]
    exact ⟨written, by rw [Directive.after, kept]; rfl, le_max_left _ _⟩

theorem expand_of_string {d : Directive} {args : List UInt64} {a : UInt64}
    (some : d.address? args = some a) (t : RegionTable) (written : List UInt8) :
    expand t d written args =
      (CString.read t a maxString).map fun s => (showText (plan d args).1 s, d.after args) := by
  unfold Directive.address? at some
  split at some
  · rename_i verb
    cases some
    have taken : d.takesArgument = true := by
      rw [Directive.takesArgument, verb]
      decide
    simp [expand, Directive.after, taken, verb, ascii]
  · cases some

theorem length_of_expand {t : RegionTable} {d : Directive} {written out : List UInt8}
    {args rest : List UInt64} (short : written.length ≤ fieldLimit)
    (h : expand t d written args = .ok (out, rest)) : out.length ≤ fieldLimit := by
  cases string : d.address? args with
  | none =>
    obtain ⟨out', expanded, length⟩ := expand_of_no_string string t written
    cases expanded.symm.trans h
    exact length.trans (max_le short (Nat.le_refl _))
  | some a =>
    rw [expand_of_string string] at h
    cases read : CString.read t a maxString with
    | error e => simp [read, Except.map] at h
    | ok s =>
      simp only [read, Except.map, Except.ok.injEq, Prod.mk.injEq] at h
      rw [← h.1]
      exact length_showText_le (sound_plan d args) (CString.length_readFrom_le read)

/-! ## Whole formats -/

/-- The addresses of the strings that a format reads, in the order of its directives. -/
def addresses : List Piece → List UInt64 → List UInt64
  | [], _ => []
  | .literal _ :: rest, args | .unfinished _ :: rest, args => addresses rest args
  | .directive d _ :: rest, args => (d.address? args).toList ++ addresses rest (d.after args)

theorem render_eq_error_iff (t : RegionTable) (ps : List Piece) (args : List UInt64) :
    (∃ e, render t ps args = .error e) ↔
      ∃ a ∈ addresses ps args, ∃ e, CString.read t a maxString = .error e := by
  induction ps generalizing args with
  | nil => simp [render, addresses]
  | cons p rest ih =>
    cases p with
    | literal b =>
      rw [addresses, ← ih args, render]
      cases render t rest args <;> simp [Except.map]
    | unfinished written =>
      rw [addresses, ← ih args, render]
      cases render t rest args <;> simp [Except.map]
    | directive d written =>
      rw [addresses, render]
      cases string : d.address? args with
      | none =>
        obtain ⟨out, expanded, -⟩ := expand_of_no_string string t written
        rw [expanded, Option.toList_none, List.nil_append, ← ih (d.after args)]
        cases more : render t rest (d.after args) <;>
          simp [more, bind, Except.bind, pure, Except.pure]
      | some a =>
        rw [expand_of_string string t written]
        simp only [Option.toList_some, List.singleton_append, List.exists_mem_cons_iff,
          ← ih (d.after args)]
        cases read : CString.read t a maxString with
        | error e => simp [Except.map, bind, Except.bind]
        | ok s =>
          cases more : render t rest (d.after args) <;>
            simp [Except.map, more, bind, Except.bind, pure, Except.pure]

def Piece.spelling : Piece → List UInt8
  | .literal b => [b]
  | .directive _ written | .unfinished written => written

theorem length_render_le {t : RegionTable} {ps : List Piece} {args : List UInt64} {out : List UInt8}
    (short : ∀ p ∈ ps, p.spelling.length ≤ fieldLimit) (h : render t ps args = .ok out) :
    out.length ≤ ps.length * fieldLimit := by
  induction ps generalizing args out with
  | nil =>
    cases h
    simp
  | cons p rest ih =>
    obtain ⟨first, later⟩ := List.forall_mem_cons.mp short
    rw [List.length_cons, Nat.succ_mul]
    cases p with
    | literal b | unfinished written =>
      rw [render] at h
      cases more : render t rest args with
      | error e => simp [more, Except.map] at h
      | ok out' =>
        have rest_length := ih later more
        simp only [more, Except.map, Except.ok.injEq] at h
        simp only [← h, List.length_cons, List.length_append, Piece.spelling, List.length_nil] at *
        omega
    | directive d written =>
      rw [render] at h
      cases expanded : expand t d written args with
      | error e => simp [expanded, bind, Except.bind] at h
      | ok r =>
        cases more : render t rest r.2 with
        | error e => simp [expanded, more, bind, Except.bind] at h
        | ok out' =>
          have length := length_of_expand first expanded
          have rest_length := ih later more
          simp only [expanded, more, bind, Except.bind, pure, Except.pure, Except.ok.injEq] at h
          rw [← h, List.length_append]
          omega

theorem length_pieces_le (text : List UInt8) : (pieces text).length ≤ text.length := by
  fun_induction pieces text with
  | case1 => simp
  | case2 => simp
  | case3 format d rest scanned ih =>
    have := length_lt_of_scan scanned
    simp only [List.length_cons]
    omega
  | case4 b format _ ih => simpa using ih

theorem length_spelling_le (text : List UInt8) :
    ∀ p ∈ pieces text, p.spelling.length ≤ text.length := by
  fun_induction pieces text with
  | case1 => simp
  | case2 => simp [Piece.spelling]
  | case3 format d rest scanned ih =>
    have := length_lt_of_scan scanned
    refine List.forall_mem_cons.mpr ⟨?_, fun p member => ?_⟩
    · simp only [Piece.spelling, List.length_cons, List.length_take]
      omega
    · have := ih p member
      simp only [List.length_cons]
      omega
  | case4 b format _ ih =>
    refine List.forall_mem_cons.mpr ⟨by simp [Piece.spelling], fun p member => ?_⟩
    have := ih p member
    simp only [List.length_cons]
    omega

theorem length_format_le {t : RegionTable} {text : List UInt8} {args : List UInt64}
    {out : List UInt8} (short : text.length ≤ fieldLimit) (h : format t text args = .ok out) :
    out.length ≤ text.length * fieldLimit := by
  have written :=
    length_render_le (fun p member => (length_spelling_le text p member).trans short) h
  exact written.trans (Nat.mul_le_mul_right _ (length_pieces_le text))

end Printf

end BytecodeVm
