/-! Byte strings: the little-endian reading and writing of numbers, slices, and
overwriting a range. Offsets are natural numbers; a slice that runs past the end
is cut there. -/
namespace BytecodeVm

namespace LittleEndian

def toNat : List UInt8 → Nat
  | [] => 0
  | b :: bs => b.toNat + 256 * toNat bs

def ofNat : (count : Nat) → (n : Nat) → List UInt8
  | 0, _ => []
  | count + 1, n => n.toUInt8 :: ofNat count (n / 256)

@[simp] theorem length_ofNat (count n : Nat) : (ofNat count n).length = count := by
  induction count generalizing n with
  | zero => rfl
  | succ count ih => simp [ofNat, ih]

end LittleEndian

abbrev Bytes := ByteArray

namespace Bytes

def ofList (bytes : List UInt8) : Bytes := bytes.toByteArray

def toList (b : Bytes) : List UInt8 := b.data.toList

@[simp] theorem toList_ofList (bytes : List UInt8) : toList (ofList bytes) = bytes := by
  simp [toList, ofList]

def zeroBlockSize : Nat := 4096

def zeroBlock : Bytes := ⟨Array.replicate zeroBlockSize 0⟩

/-- `n` zero bytes, written block by block into one buffer. -/
def zeros (n : Nat) : Bytes :=
  (n / zeroBlockSize).repeat (· ++ zeroBlock) (ByteArray.emptyWithCapacity n) ++
    ⟨Array.replicate (n % zeroBlockSize) 0⟩

theorem append_replicate (m n : Nat) :
    (⟨Array.replicate m 0⟩ ++ ⟨Array.replicate n 0⟩ : Bytes) = ⟨Array.replicate (m + n) 0⟩ := by
  apply ByteArray.ext
  simp [ByteArray.data_append]

theorem repeat_zeroBlock (count m : Nat) :
    count.repeat (· ++ zeroBlock) ⟨Array.replicate m 0⟩ =
      (⟨Array.replicate (m + count * zeroBlockSize) 0⟩ : Bytes) := by
  induction count with
  | zero => rw [Nat.repeat, Nat.zero_mul, Nat.add_zero]
  | succ count ih =>
    rw [Nat.repeat, ih, zeroBlock, append_replicate, Nat.succ_mul, Nat.add_assoc]

theorem zeros_eq (n : Nat) : zeros n = ⟨Array.replicate n 0⟩ := by
  have empty : ByteArray.emptyWithCapacity n = ⟨Array.replicate 0 0⟩ := rfl
  rw [zeros, empty, repeat_zeroBlock, append_replicate, Nat.zero_add, Nat.div_add_mod']

@[simp] theorem size_zeros (n : Nat) : ByteArray.size (zeros n) = n := by
  simp [zeros_eq, ByteArray.size]

/-- The byte at `i`, or zero past the end. -/
def byteAt (b : Bytes) (i : Nat) : UInt8 :=
  if h : i < b.size then b[i] else 0

def slice (b : Bytes) (offset length : Nat) : Bytes := b.extract offset (offset + length)

def drop (b : Bytes) (offset : Nat) : Bytes := b.extract offset b.size

def overwrite (b : Bytes) (offset : Nat) (new : Bytes) : Bytes :=
  new.copySlice 0 b offset new.size

def clear (b : Bytes) : Bytes := b.overwrite 0 (zeros b.size)

def number (b : Bytes) (offset length : Nat) : Nat :=
  LittleEndian.toNat (toList (slice b offset length))

def ofText (s : String) : Bytes := s.toUTF8

end Bytes

end BytecodeVm
