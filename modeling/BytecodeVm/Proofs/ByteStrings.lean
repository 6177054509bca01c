import BytecodeVm.Bytes
import Mathlib

/-! Byte strings as lists. Numbers and their bytes determine each other, blocks of one length can be
taken out of a sequence of them and put together again, and a part that stands somewhere in a byte
string is what a slice there gives. -/
namespace BytecodeVm

namespace LittleEndian

theorem toNat_ofNat (count n : Nat) : toNat (ofNat count n) = n % 256 ^ count := by
  induction count generalizing n with
  | zero => simp [ofNat, toNat, Nat.mod_one]
  | succ count ih =>
    have digit : n.toUInt8.toNat = n % 256 := by simp
    rw [ofNat, toNat, ih, digit, Nat.pow_succ, Nat.mul_comm (256 ^ count), Nat.mod_mul]

theorem toNat_ofNat_of_lt {count n : Nat} (small : n < 256 ^ count) :
    toNat (ofNat count n) = n := by
  rw [toNat_ofNat, Nat.mod_eq_of_lt small]

theorem ofNat_toNat (bytes : List UInt8) : ofNat bytes.length (toNat bytes) = bytes := by
  induction bytes with
  | nil => rfl
  | cons b bytes ih =>
    have small := b.toNat_lt
    have low : (b.toNat + 256 * toNat bytes).toUInt8 = b := by
      apply UInt8.toNat_inj.mp
      simp
    have high : (b.toNat + 256 * toNat bytes) / 256 = toNat bytes := by omega
    rw [List.length_cons, toNat, ofNat, low, high, ih]

theorem toNat_lt (bytes : List UInt8) : toNat bytes < 256 ^ bytes.length := by
  induction bytes with
  | nil => simp [toNat]
  | cons b bytes ih =>
    have small := b.toNat_lt
    rw [toNat, List.length_cons, Nat.pow_succ]
    omega

end LittleEndian

namespace Blocks

variable {α β : Type}

theorem take_drop_flatMap {f : α → List β} {length : Nat} (even : ∀ a, (f a).length = length)
    (items : List α) (rest : List β) {k : Nat} {a : α} (item : items[k]? = some a) :
    ((items.flatMap f ++ rest).drop (length * k)).take length = f a := by
  induction items generalizing k with
  | nil => cases item
  | cons first items ih =>
    cases k with
    | zero =>
      cases item
      rw [Nat.mul_zero, List.drop_zero, List.flatMap_cons, List.append_assoc,
        List.take_left' (even _)]
    | succ k =>
      have skip : length * (k + 1) = (f first).length + length * k := by
        rw [even, Nat.mul_succ, Nat.add_comm]
      rw [List.flatMap_cons, List.append_assoc, skip, ← List.drop_drop, List.drop_left]
      exact ih item

theorem flatMap_take_drop (length count : Nat) (l : List β) :
    (List.range count).flatMap (fun k => (l.drop (length * k)).take length) =
      l.take (length * count) := by
  induction count with
  | zero => simp
  | succ count ih =>
    rw [List.range_succ, List.flatMap_append, ih, Nat.mul_succ, List.take_add]
    simp

end Blocks

namespace Bytes

theorem ext_toList {a b : Bytes} (same : toList a = toList b) : a = b := by
  apply ByteArray.ext
  exact Array.toList_inj.mp same

theorem length_toList (b : Bytes) : (toList b).length = ByteArray.size b := rfl

theorem toList_append (a b : Bytes) : toList (a ++ b) = toList a ++ toList b := by
  simp [toList]

theorem size_ofList (bytes : List UInt8) : (ofList bytes).size = bytes.length := by
  rw [← length_toList, toList_ofList]

theorem toList_slice (b : Bytes) (offset length : Nat) :
    toList (slice b offset length) = ((toList b).drop offset).take length := by
  simp [toList, slice, List.extract_eq_take_drop]

theorem toList_ofText_of_lt {l : List Char} (plain : ∀ c ∈ l, c.toNat < 128) :
    toList (ofText (String.ofList l)) = l.map fun c => c.toNat.toUInt8 := by
  rw [ofText, String.toUTF8, String.toByteArray_ofList]
  induction l with
  | nil => rfl
  | cons c l ih =>
    rw [List.forall_mem_cons] at plain
    have one : String.utf8EncodeChar c = [c.toNat.toUInt8] := if_pos (Nat.le_of_lt_succ plain.1)
    rw [List.utf8Encode_cons, toList_append, ih plain.2, List.utf8Encode_singleton, one,
      List.map_cons]
    rfl

theorem slice_all (b : Bytes) : slice b 0 (ByteArray.size b) = b := by
  apply ext_toList
  rw [toList_slice, List.drop_zero, ← length_toList, List.take_length]

def HasAt (b : Bytes) (offset : Nat) (part : Bytes) : Prop :=
  ∃ before after, b = before ++ part ++ after ∧ ByteArray.size before = offset

namespace HasAt

variable {b : Bytes} {offset : Nat} {part part' : Bytes}

theorem whole (b : Bytes) : HasAt b 0 b :=
  ⟨ByteArray.empty, ByteArray.empty, by simp, rfl⟩

theorem left (h : HasAt b offset (part ++ part')) : HasAt b offset part := by
  obtain ⟨before, after, rfl, start⟩ := h
  exact ⟨before, part' ++ after, by simp only [ByteArray.append_assoc], start⟩

theorem right (h : HasAt b offset (part ++ part')) : HasAt b (offset + part.size) part' := by
  obtain ⟨before, after, rfl, start⟩ := h
  refine ⟨before ++ part, after, by simp only [ByteArray.append_assoc], ?_⟩
  rw [ByteArray.size_append, start]

theorem le (h : HasAt b offset part) : offset + part.size ≤ b.size := by
  obtain ⟨before, after, rfl, start⟩ := h
  simp only [ByteArray.size_append]
  omega

theorem slice (h : HasAt b offset part) : b.slice offset part.size = part := by
  obtain ⟨before, after, rfl, start⟩ := h
  apply ext_toList
  rw [toList_slice, toList_append, toList_append, ← start, List.append_assoc,
    ← length_toList before, List.drop_left, ← length_toList part, List.take_left]

theorem number {count n : Nat} (h : HasAt b offset (ofList (LittleEndian.ofNat count n)))
    (small : n < 256 ^ count) : b.number offset count = n := by
  have part := h.slice
  rw [size_ofList, LittleEndian.length_ofNat] at part
  rw [Bytes.number, part, toList_ofList, LittleEndian.toNat_ofNat_of_lt small]

end HasAt

end Bytes

end BytecodeVm
