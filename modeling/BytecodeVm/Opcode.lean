/-! Opcodes: what each of the 256 opcode bytes asks for. The low three bits are the
class; arithmetic and jumps keep the operation in the high four bits and bit 3 says
whether the second operand is a register. -/
namespace BytecodeVm

inductive Source
  | immediate
  | register
deriving DecidableEq

inductive AluOp
  | add | sub | mul | div | or | and | lsh | rsh | neg | mod | xor | mov | arsh
deriving DecidableEq

inductive AluWidth
  | low32
  | full64
deriving DecidableEq

/-- When a jump is taken. The conditions starting with `s` compare signed numbers. -/
inductive Condition
  | always | eq | gt | ge | set | ne | sgt | sge | lt | le | slt | sle
deriving DecidableEq

inductive AccessSize
  | byte | half | word | double
deriving DecidableEq

def AccessSize.bytes : AccessSize → Nat
  | .byte => 1
  | .half => 2
  | .word => 4
  | .double => 8

/-- The size with the given number of bytes; any other number stands for eight. -/
def AccessSize.ofCount : Nat → AccessSize
  | 1 => .byte
  | 2 => .half
  | 4 => .word
  | _ => .double

inductive WideBase
  | absolute
  | data
  | rodata
deriving DecidableEq

inductive Opcode
  | alu (width : AluWidth) (op : AluOp) (source : Source)
  | unknownAlu
  | jump (condition : Condition) (source : Source)
  /-- The jump class without a known condition; it still names a jump target. -/
  | unknownJump
  | call
  | exit
  | wide (base : WideBase)
  | load (size : AccessSize)
  | storeImmediate (size : AccessSize)
  | storeRegister (size : AccessSize)
  | undefined
deriving DecidableEq

namespace Opcode

def source (b : UInt8) : Source :=
  if b &&& 0x08 = 0 then .immediate else .register

def aluOp? (b : UInt8) : Option AluOp :=
  match (b >>> 4).toNat with
  | 0x0 => some .add
  | 0x1 => some .sub
  | 0x2 => some .mul
  | 0x3 => some .div
  | 0x4 => some .or
  | 0x5 => some .and
  | 0x6 => some .lsh
  | 0x7 => some .rsh
  | 0x8 => some .neg
  | 0x9 => some .mod
  | 0xa => some .xor
  | 0xb => some .mov
  | 0xc => some .arsh
  | _ => none

def condition? (b : UInt8) : Option Condition :=
  match (b >>> 4).toNat with
  | 0x0 => some .always
  | 0x1 => some .eq
  | 0x2 => some .gt
  | 0x3 => some .ge
  | 0x4 => some .set
  | 0x5 => some .ne
  | 0x6 => some .sgt
  | 0x7 => some .sge
  | 0xa => some .lt
  | 0xb => some .le
  | 0xc => some .slt
  | 0xd => some .sle
  | _ => none

/-- Loads and stores are defined in one addressing mode only. -/
def accessSize? (b : UInt8) : Option AccessSize :=
  match (b >>> 3).toNat with
  | 0xc => some .word
  | 0xd => some .half
  | 0xe => some .byte
  | 0xf => some .double
  | _ => none

def ofAlu (width : AluWidth) (b : UInt8) : Opcode :=
  match aluOp? b with
  | some op => .alu width op (source b)
  | none => .unknownAlu

def ofJump (b : UInt8) : Opcode :=
  if b = 0x85 then .call
  else if b = 0x95 then .exit
  else match condition? b with
    | some condition => .jump condition (source b)
    | none => .unknownJump

def ofAccess (make : AccessSize → Opcode) (b : UInt8) : Opcode :=
  match accessSize? b with
  | some size => make size
  | none => .undefined

def ofWide (b : UInt8) : Opcode :=
  if b = 0x18 then .wide .absolute
  else if b = 0xb8 then .wide .data
  else if b = 0xd8 then .wide .rodata
  else .undefined

def classOf (b : UInt8) : Nat := (b &&& 0x07).toNat

def ofByte (b : UInt8) : Opcode :=
  match classOf b with
  | 0 => ofWide b
  | 1 => ofAccess .load b
  | 2 => ofAccess .storeImmediate b
  | 3 => ofAccess .storeRegister b
  | 4 => ofAlu .low32 b
  | 5 => ofJump b
  | 7 => ofAlu .full64 b
  | _ => .undefined

end Opcode

end BytecodeVm
