import BytecodeVm.Bytes
import BytecodeVm.Opcode

/-! Instructions as 64-bit words: opcode in bits 0-7, destination register in 8-11,
source register in 12-15, a signed offset in 16-31 and a signed immediate in 32-63.
A text section is a sequence of such words, each written little-endian. A double-width
load takes a second word, whose immediate is the high half of the value. -/
namespace BytecodeVm

abbrev Register := Fin 16

abbrev Cell := Fin 11

namespace Cell

def result : Cell := ⟨0, Nat.le_of_ble_eq_true rfl⟩

def first : Cell := ⟨1, Nat.le_of_ble_eq_true rfl⟩
def second : Cell := ⟨2, Nat.le_of_ble_eq_true rfl⟩
def third : Cell := ⟨3, Nat.le_of_ble_eq_true rfl⟩
def fourth : Cell := ⟨4, Nat.le_of_ble_eq_true rfl⟩
def fifth : Cell := ⟨5, Nat.le_of_ble_eq_true rfl⟩

end Cell

namespace Register

def cell? (r : Register) : Option Cell :=
  if h : r.val < 11 then some ⟨r.val, h⟩ else none

end Register

structure Instruction where
  opcode : UInt8
  dst : Register
  src : Register
  offset : Int16
  imm : Int32
deriving DecidableEq

namespace Instruction

def decode (w : UInt64) : Instruction where
  opcode := w.toUInt8
  dst := Fin.ofNat 16 (w >>> 8).toNat
  src := Fin.ofNat 16 (w >>> 12).toNat
  offset := (w >>> 16).toUInt16.toInt16
  imm := (w >>> 32).toUInt32.toInt32

def encode (i : Instruction) : UInt64 :=
  i.opcode.toUInt64 |||
    UInt64.ofNat i.dst.val <<< 8 |||
    UInt64.ofNat i.src.val <<< 12 |||
    i.offset.toUInt16.toUInt64 <<< 16 |||
    i.imm.toUInt32.toUInt64 <<< 32

/-- The instruction with the given fields. Of a register number the low four bits count. -/
def ofFields (opcode dst src : UInt8) (offset : Int16) (imm : Int32) : Instruction where
  opcode := opcode
  dst := Fin.ofNat 16 dst.toNat
  src := Fin.ofNat 16 src.toNat
  offset := offset
  imm := imm

def kind (i : Instruction) : Opcode := Opcode.ofByte i.opcode

def uimm (i : Instruction) : UInt32 := i.imm.toUInt32

/-- The immediate sign-extended to a register value. -/
def operand (i : Instruction) : UInt64 := i.imm.toInt64.toUInt64

def isWide (i : Instruction) : Bool :=
  match i.kind with
  | .wide _ => true
  | _ => false

def wideImm (low high : Instruction) : UInt64 :=
  low.uimm.toUInt64 ||| high.uimm.toUInt64 <<< 32

def wideWords (opcode : UInt8) (dst : Register) (value : UInt64) : List UInt64 :=
  [encode ⟨opcode, dst, 0, 0, value.toUInt32.toInt32⟩,
    encode ⟨0, 0, 0, 0, (value >>> 32).toUInt32.toInt32⟩]

end Instruction

namespace Text

def slotSize : Nat := 8

def assemble (words : List UInt64) : Bytes :=
  Bytes.ofList (words.flatMap fun w => LittleEndian.ofNat slotSize w.toNat)

def slots (text : Bytes) : Nat := text.size / slotSize

def word (text : Bytes) (pc : Nat) : UInt64 :=
  UInt64.ofNat (text.number (pc * slotSize) slotSize)

def fetch (text : Bytes) (pc : Nat) : Instruction :=
  Instruction.decode (word text pc)

def instructions (text : Bytes) : List Instruction :=
  (List.range (slots text)).map (fetch text)

end Text

end BytecodeVm
