import BytecodeVm.Digest
import BytecodeVm.Proofs.ByteStrings
import BytecodeVm.Proofs.Numerals
import Mathlib

/-! The texts of digests. A list of digits is determined by the number it denotes and by how many
zeros it starts with, so going over to another base and back, with the leading zeros kept, is the
identity. Bytes are digits in base 256 and the characters of a text are digits in base 58, and both
round trips between them are this one fact. -/
namespace BytecodeVm

namespace Numeral

def leadingZeros (ds : List Nat) : Nat := (ds.takeWhile (· = 0)).length

/-- The digits of the same number in another base, behind as many leading zeros. -/
def rebase (base target : Nat) (ds : List Nat) : List Nat :=
  List.replicate (leadingZeros ds) 0 ++ positional target (value base ds)

theorem exists_rest (ds : List Nat) :
    ∃ rest, ds = List.replicate (leadingZeros ds) 0 ++ rest ∧ rest.head? ≠ some 0 := by
  induction ds with
  | nil => exact ⟨[], rfl, by simp⟩
  | cons d ds ih =>
    by_cases zero : d = 0
    · obtain ⟨rest, split, lead⟩ := ih
      refine ⟨rest, ?_, lead⟩
      rw [leadingZeros, List.takeWhile_cons_of_pos (by simpa using zero), List.length_cons,
        List.replicate_succ, List.cons_append, zero]
      exact congrArg (0 :: ·) split
    · refine ⟨d :: ds, ?_, by simpa using zero⟩
      rw [leadingZeros, List.takeWhile_cons_of_neg (by simpa using zero)]
      rfl

theorem leadingZeros_append (k : Nat) {ds : List Nat} (lead : ds.head? ≠ some 0) :
    leadingZeros (List.replicate k 0 ++ ds) = k := by
  have none : ds.takeWhile (fun d => decide (d = 0)) = [] := by
    cases ds with
    | nil => rfl
    | cons d ds => exact List.takeWhile_cons_of_neg (by simpa using lead)
  rw [leadingZeros, List.takeWhile_append_of_pos (by simp), none, List.append_nil,
    List.length_replicate]

theorem length_takeWhile_map {α : Type} {ds : List Nat} {f : Nat → α} {p : α → Bool}
    (same : ∀ d ∈ ds, p (f d) = decide (d = 0)) :
    ((ds.map f).takeWhile p).length = leadingZeros ds := by
  induction ds with
  | nil => rfl
  | cons d ds ih =>
    rw [List.forall_mem_cons] at same
    simp only [leadingZeros, List.map_cons, List.takeWhile_cons, same.1]
    split
    · exact congrArg (· + 1) (ih same.2)
    · rfl

theorem positional_zero (base : Nat) : positional base 0 = [] := by
  rw [positional, dif_pos (.inl rfl)]

section

variable {base : Nat} (proper : 2 ≤ base)

include proper

theorem positional_mul_add {v e : Nat} (small : e < base) (nonzero : base * v + e ≠ 0) :
    positional base (base * v + e) = positional base v ++ [e] := by
  rw [positional, dif_neg (by omega), Nat.mul_add_div (by omega), Nat.div_eq_of_lt small,
    Nat.add_zero, Nat.mul_add_mod, Nat.mod_eq_of_lt small]

theorem positional_value {ds : List Nat} (small : ∀ d ∈ ds, d < base) (lead : ds.head? ≠ some 0) :
    positional base (value base ds) = ds := by
  induction ds using List.reverseRecOn with
  | nil => exact positional_zero base
  | append_singleton ds e ih =>
    rw [List.forall_mem_append] at small
    have smallest : e < base := small.2 e (List.mem_singleton.mpr rfl)
    rw [value_concat]
    cases ds with
    | nil =>
      have nonzero : e ≠ 0 := by simpa using lead
      rw [positional_mul_add proper smallest (by omega)]
      exact congrArg (· ++ [e]) (positional_zero base)
    | cons d ds =>
      have before := ih small.1 lead
      have nonzero : value base (d :: ds) ≠ 0 := by
        intro zero
        rw [zero, positional_zero] at before
        cases before
      have positive := Nat.mul_pos (Nat.lt_of_lt_of_le Nat.two_pos proper)
        (Nat.pos_of_ne_zero nonzero)
      rw [positional_mul_add proper smallest (by omega), before]

end

theorem rebase_nil (base target : Nat) : rebase base target [] = [] :=
  positional_zero target

theorem value_rebase {target : Nat} (proper : 2 ≤ target) (base : Nat) (ds : List Nat) :
    value target (rebase base target ds) = value base ds := by
  rw [rebase, value_zeros, value_positional proper]

theorem leadingZeros_rebase {target : Nat} (proper : 2 ≤ target) (base : Nat) (ds : List Nat) :
    leadingZeros (rebase base target ds) = leadingZeros ds :=
  leadingZeros_append _ (head?_positional proper _)

theorem lt_of_mem_rebase {target : Nat} (proper : 2 ≤ target) (base : Nat) (ds : List Nat) :
    ∀ d ∈ rebase base target ds, d < target := by
  intro d member
  rcases List.mem_append.mp member with zero | digit
  · rw [List.eq_of_mem_replicate zero]
    omega
  · exact lt_of_mem_positional proper _ d digit

theorem rebase_rebase {base target : Nat} (proper : 2 ≤ base) (proper' : 2 ≤ target)
    {ds : List Nat} (small : ∀ d ∈ ds, d < base) :
    rebase target base (rebase base target ds) = ds := by
  obtain ⟨rest, split, lead⟩ := exists_rest ds
  have number : value base ds = value base rest := by
    rw [split, value_zeros]
  have digits : positional base (value base rest) = rest := by
    refine positional_value proper (fun d member => small d ?_) lead
    rw [split]
    exact List.mem_append_right _ member
  rw [rebase, leadingZeros_rebase proper', value_rebase proper', number, digits, ← split]

end Numeral

namespace Base58

open Numeral

def digitByte (d : Nat) : UInt8 := (digitChar d).toNat.toUInt8

theorem digit_cases : ∀ d < 58, (digitChar d).toNat < 128 ∧ ¬ 127 < digitByte d ∧
    digitOf? (Char.ofNat (digitByte d).toNat) = some d ∧
    decide (digitByte d = '1'.toUInt8) = decide (d = 0) := by
  decide +kernel

theorem digit_of_byte {b : UInt8} {d : Nat} (plain : ¬ 127 < b)
    (found : digitOf? (Char.ofNat b.toNat) = some d) : d < 58 ∧ digitByte d = b := by
  obtain ⟨inside, char, -⟩ := List.idxOf?_eq_some_iff.mp found
  have code : (Char.ofNat b.toNat).toNat = b.toNat := by
    have small : b.toNat < 128 :=
      Nat.lt_succ_of_le (UInt8.le_iff_toNat_le.mp (UInt8.not_lt.mp plain))
    rw [Char.toNat_ofNat, if_pos (.inl (by omega))]
  refine ⟨inside, ?_⟩
  rw [digitByte, digitChar, List.getD_eq_getElem _ _ inside, char, code]
  exact UInt8.ofNat_toNat

theorem digits_map_digitByte {ds : List Nat} (small : ∀ d ∈ ds, d < 58) :
    digits (ds.map digitByte) = .ok ds := by
  induction ds with
  | nil => rfl
  | cons d ds ih =>
    rw [List.forall_mem_cons] at small
    obtain ⟨-, plain, found, -⟩ := digit_cases d small.1
    simp only [List.map_cons, digits, if_neg plain, found, ih small.2]
    rfl

theorem eq_map_of_digits {text : List UInt8} {ds : List Nat} (read : digits text = .ok ds) :
    text = ds.map digitByte ∧ ∀ d ∈ ds, d < 58 := by
  induction text generalizing ds with
  | nil =>
    cases read
    exact ⟨rfl, by simp⟩
  | cons b text ih =>
    rw [digits] at read
    split at read
    · cases read
    · rename_i plain
      split at read
      · cases read
      · rename_i d found
        cases rest : digits text with
        | error e =>
          rw [rest] at read
          cases read
        | ok tail =>
          rw [rest] at read
          cases read
          obtain ⟨inside, byte⟩ := digit_of_byte plain found
          obtain ⟨written, small⟩ := ih rest
          exact ⟨by rw [List.map_cons, byte, ← written], List.forall_mem_cons.mpr ⟨inside, small⟩⟩

theorem map_toUInt8_toNat (bytes : List UInt8) : (bytes.map (·.toNat)).map Nat.toUInt8 = bytes := by
  rw [List.map_map]
  exact (List.map_congr_left fun b _ => UInt8.ofNat_toNat).trans (List.map_id bytes)

theorem map_toNat_toUInt8 {ds : List Nat} (small : ∀ d ∈ ds, d < 256) :
    (ds.map Nat.toUInt8).map (·.toNat) = ds := by
  rw [List.map_map]
  refine (List.map_congr_left fun d member => ?_).trans (List.map_id ds)
  exact UInt8.toNat_ofNat_of_lt (small d member)

theorem toNat_lt_of_mem (bytes : List UInt8) : ∀ d ∈ bytes.map (·.toNat), d < 256 := by
  intro d member
  obtain ⟨b, -, rfl⟩ := List.mem_map.mp member
  exact b.toNat_lt

theorem leadingZeros_bytes (bytes : List UInt8) :
    leadingZeros (bytes.map (·.toNat)) = (bytes.takeWhile (· = 0)).length := by
  have written := map_toUInt8_toNat bytes
  rw [← length_takeWhile_map (f := Nat.toUInt8) (p := (· = 0)), written]
  intro d member
  obtain ⟨b, -, rfl⟩ := List.mem_map.mp member
  rw [decide_eq_decide, ← UInt8.toNat_inj, Nat.toUInt8, UInt8.ofNat_toNat]
  exact Iff.rfl

theorem encode_eq (bytes : List UInt8) :
    encode bytes = String.ofList ((rebase 256 58 (bytes.map (·.toNat))).map digitChar) := by
  rw [encode, ← leadingZeros_bytes, rebase, List.map_append, List.map_replicate]
  rfl

theorem toList_encode (bytes : List UInt8) :
    Bytes.toList (Bytes.ofText (encode bytes)) =
      (rebase 256 58 (bytes.map (·.toNat))).map digitByte := by
  rw [encode_eq, Bytes.toList_ofText_of_lt, List.map_map]
  · rfl
  · intro c member
    obtain ⟨d, listed, rfl⟩ := List.mem_map.mp member
    exact (digit_cases d (lt_of_mem_rebase (by decide) 256 _ d listed)).1

theorem decode_of_toList {text : Bytes} {ds : List Nat} (nonempty : ds ≠ [])
    (small : ∀ d ∈ ds, d < 58) (written : text.toList = ds.map digitByte) :
    decode text = .ok ((rebase 58 256 ds).map Nat.toUInt8) := by
  have zeros : ((ds.map digitByte).takeWhile (· = '1'.toUInt8)).length = leadingZeros ds :=
    length_takeWhile_map fun d member => (digit_cases d (small d member)).2.2.2
  have present : (ds.map digitByte).isEmpty = false := by simpa using nonempty
  rw [decode]
  simp only [written, present, digits_map_digitByte small, zeros]
  rw [rebase, List.map_append, List.map_replicate]
  rfl

theorem exists_digits_of_decode {text : Bytes} {bytes : List UInt8}
    (read : decode text = .ok bytes) :
    ∃ ds, ds ≠ [] ∧ (∀ d ∈ ds, d < 58) ∧ text.toList = ds.map digitByte := by
  rw [decode] at read
  split at read
  · cases read
  · rename_i present
    cases found : digits text.toList with
    | error e =>
      rw [found] at read
      cases read
    | ok ds =>
      obtain ⟨written, small⟩ := eq_map_of_digits found
      refine ⟨ds, fun empty => present ?_, small, written⟩
      rw [written, empty]
      rfl

theorem decode_eq_ok_iff {text : Bytes} {bytes : List UInt8} :
    decode text = .ok bytes ↔ bytes ≠ [] ∧ text = Bytes.ofText (encode bytes) := by
  constructor
  · intro read
    obtain ⟨ds, nonempty, small, written⟩ := exists_digits_of_decode read
    obtain rfl := Except.ok.inj (read.symm.trans (decode_of_toList nonempty small written))
    have back : rebase 256 58 (rebase 58 256 ds) = ds :=
      rebase_rebase (by decide) (by decide) small
    refine ⟨fun empty => nonempty ?_, Bytes.ext_toList ?_⟩
    · rw [← back, List.map_eq_nil_iff.mp empty, rebase_nil]
    · rw [toList_encode, map_toNat_toUInt8 (lt_of_mem_rebase (by decide) 58 ds), back, written]
  · rintro ⟨nonempty, rfl⟩
    have back : rebase 58 256 (rebase 256 58 (bytes.map (·.toNat))) = bytes.map (·.toNat) :=
      rebase_rebase (by decide) (by decide) (toNat_lt_of_mem bytes)
    have present : rebase 256 58 (bytes.map (·.toNat)) ≠ [] := by
      intro empty
      rw [empty, rebase_nil] at back
      exact nonempty (List.map_eq_nil_iff.mp back.symm)
    rw [decode_of_toList present (lt_of_mem_rebase (by decide) 256 _) (toList_encode bytes), back,
      map_toUInt8_toNat]

end Base58

namespace Digest

theorem length_toList (d : Digest) : d.toList.length = 32 := d.bytes.length_toList

theorem ofBytes_eq_ok_iff {bytes : List UInt8} {d : Digest} :
    ofBytes bytes = .ok d ↔ bytes = d.toList := by
  rw [ofBytes]
  constructor
  · intro made
    split at made
    · cases made
      rfl
    · cases made
  · rintro rfl
    rw [dif_pos d.length_toList]
    rfl

theorem ofText_eq_ok_iff {s : Bytes} {d : Digest} : ofText s = .ok d ↔ s = Bytes.ofText d.text := by
  have nonempty : d.toList ≠ [] := by
    intro empty
    have length := d.length_toList
    rw [empty] at length
    cases length
  rw [ofText]
  constructor
  · intro read
    split at read
    · cases read
    · rename_i bytes decoded
      obtain rfl := ofBytes_eq_ok_iff.mp read
      exact (Base58.decode_eq_ok_iff.mp decoded).2
  · intro written
    rw [Base58.decode_eq_ok_iff.mpr ⟨nonempty, written⟩]
    exact ofBytes_eq_ok_iff.mpr rfl

/-- The characters of a digest's text are digits in base 58 that denote the number its bytes do, and
a leading `1` stands for each leading zero byte. -/
theorem exists_digits_text (d : Digest) :
    ∃ ds, d.text = String.ofList (ds.map Base58.digitChar) ∧ (∀ x ∈ ds, x < 58) ∧
      Numeral.value 58 ds = Numeral.value 256 (d.toList.map (·.toNat)) ∧
      Numeral.leadingZeros ds = (d.toList.takeWhile (· = 0)).length := by
  refine ⟨_, Base58.encode_eq d.toList, Numeral.lt_of_mem_rebase (by decide) 256 _,
    Numeral.value_rebase (by decide) 256 _, ?_⟩
  rw [Numeral.leadingZeros_rebase (by decide), Base58.leadingZeros_bytes]

/-- Each digest has one text, its digits in base 58: reading it gives the digest back, whatever
stood in the place it is read into, and any text that can be read is the one written. A text that
cannot be read leaves the place as it was. -/
theorem text_bijective :
    (∀ d : Digest, ∃ ds, d.text = String.ofList (ds.map Base58.digitChar) ∧ (∀ x ∈ ds, x < 58) ∧
      Numeral.value 58 ds = Numeral.value 256 (d.toList.map (·.toNat)) ∧
      Numeral.leadingZeros ds = (d.toList.takeWhile (· = 0)).length) ∧
    (∀ d : Digest, ofText (Bytes.ofText d.text) = .ok d ∧
      ∀ old : Digest, old.assign (Bytes.ofText d.text) = (none, d)) ∧
    (∀ (s : Bytes) (d : Digest), ofText s = .ok d → Bytes.ofText d.text = s) ∧
    (∀ (old d : Digest) (s : Bytes) (e : DigestError), old.assign s = (some e, d) → d = old) := by
  refine ⟨exists_digits_text, fun d => ?_, fun s d read => (ofText_eq_ok_iff.mp read).symm,
    fun old d s e failed => ?_⟩
  · have read : ofText (Bytes.ofText d.text) = .ok d := ofText_eq_ok_iff.mpr rfl
    exact ⟨read, fun old => by rw [assign, read]⟩
  · rw [assign] at failed
    split at failed
    · cases failed
    · cases failed
      rfl

def thirtyZeros : Digest := ⟨Vector.replicate 30 (0 : UInt8) ++ #v[(1 : UInt8), 0]⟩

theorem text_thirtyZeros :
    thirtyZeros.text = String.ofList (List.replicate 30 '1' ++ ['5', 'R']) := by
  have zeros : (thirtyZeros.toList.takeWhile (· = 0)).length = 30 := by decide
  have number :
      Numeral.value 256 (thirtyZeros.toList.map (·.toNat)) = Numeral.value 58 [4, 24] := by
    decide
  have digits : Numeral.positional 58 (Numeral.value 58 [4, 24]) = [4, 24] :=
    Numeral.positional_value (by decide) (by decide) (by decide)
  rw [text, Base58.encode, zeros, number, digits]
  rfl

theorem text_bijective_thirtyZeros :
    let written := Bytes.ofText (String.ofList (List.replicate 30 '1' ++ ['5', 'R']))
    let misspelt := Bytes.ofText "15l"
    ofText written = .ok thirtyZeros ∧ Bytes.ofText thirtyZeros.text = written ∧
      (thirtyZeros.assign misspelt).1 = some (.base58 (.invalidDigit 'l')) ∧
      (thirtyZeros.assign misspelt).2 = thirtyZeros := by
  intro written misspelt
  have read : ofText written = .ok thirtyZeros :=
    ofText_eq_ok_iff.mpr (congrArg Bytes.ofText text_thirtyZeros.symm)
  have failed : (thirtyZeros.assign misspelt).1 = some (.base58 (.invalidDigit 'l')) := rfl
  exact ⟨read, text_bijective.2.2.1 written thirtyZeros read, failed,
    text_bijective.2.2.2 thirtyZeros _ misspelt _ (Prod.ext failed rfl)⟩

end Digest

end BytecodeVm
