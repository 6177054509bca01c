import BytecodeVm.Instruction
import BytecodeVm.Text.Numeral

/-! Listings: the assembly text of an instruction, and of a text section with one
numbered line for each instruction. A double-width load that has its second word is
one line. -/
namespace BytecodeVm

open Numeral

namespace AluOp

def name : AluOp → String
  | .add => "add"
  | .sub => "sub"
  | .mul => "mul"
  | .div => "div"
  | .or => "or"
  | .and => "and"
  | .lsh => "lsh"
  | .rsh => "rsh"
  | .neg => "neg"
  | .mod => "mod"
  | .xor => "xor"
  | .mov => "mov"
  | .arsh => "arsh"

end AluOp

def AluWidth.suffixText : AluWidth → String
  | .low32 => "32"
  | .full64 => "64"

namespace Condition

def name : Condition → String
  | .always => "ja"
  | .eq => "jeq"
  | .gt => "jgt"
  | .ge => "jge"
  | .set => "jset"
  | .ne => "jne"
  | .sgt => "jsgt"
  | .sge => "jsge"
  | .lt => "jlt"
  | .le => "jle"
  | .slt => "jslt"
  | .sle => "jsle"

end Condition

def AccessSize.suffixText : AccessSize → String
  | .byte => "b"
  | .half => "h"
  | .word => "w"
  | .double => "dw"

def WideBase.mnemonic : WideBase → String
  | .absolute => "lddw"
  | .data => "lddwd"
  | .rodata => "lddwr"

namespace Instruction

def register (r : Register) : String := "r" ++ decimal r.val

def address (r : Register) (offset : Int16) : String :=
  "[" ++ register r ++ withSign offset.toInt ++ "]"

def renderUnknown (i : Instruction) : String :=
  "unknown 0x" ++ hexByte i.opcode ++ " dst=" ++ register i.dst ++ " src=" ++ register i.src ++
    " off=" ++ signed i.offset.toInt ++ " imm=" ++ signed i.imm.toInt

def renderOperand (i : Instruction) : Source → String
  | .immediate => signed i.imm.toInt
  | .register => register i.src

/-- Negation and the unconditional jump have a mnemonic in their immediate form only. -/
def render (i : Instruction) : String :=
  match i.kind with
  | .alu _ .neg .register | .jump .always .register => renderUnknown i
  | .alu width .neg .immediate => "neg" ++ width.suffixText ++ " " ++ register i.dst
  | .alu width op source =>
    op.name ++ width.suffixText ++ " " ++ register i.dst ++ ", " ++ renderOperand i source
  | .load size =>
    "ldx" ++ size.suffixText ++ " " ++ register i.dst ++ ", " ++ address i.src i.offset
  | .storeImmediate size =>
    "st" ++ size.suffixText ++ " " ++ address i.dst i.offset ++ ", " ++ signed i.imm.toInt
  | .storeRegister size =>
    "stx" ++ size.suffixText ++ " " ++ address i.dst i.offset ++ ", " ++ register i.src
  | .exit => "exit"
  | .call => "call 0x" ++ hex i.uimm.toNat
  | .jump .always .immediate => "ja " ++ withSign i.offset.toInt
  | .jump condition source =>
    condition.name ++ " " ++ register i.dst ++ ", " ++ renderOperand i source ++ ", " ++
      withSign i.offset.toInt
  | .wide base => base.mnemonic ++ " " ++ register i.dst ++ ", 0x" ++ hex i.uimm.toNat
  | .unknownAlu | .unknownJump | .undefined => renderUnknown i

def renderWide (base : WideBase) (low high : Instruction) : String :=
  base.mnemonic ++ " " ++ register low.dst ++ ", 0x" ++ hex (wideImm low high).toNat

end Instruction

namespace Text

def numbered (pc : Nat) (line : String) : String :=
  padLeft ' ' 4 (decimal pc) ++ ": " ++ line

def listFrom (pc : Nat) : List Instruction → List String
  | [] => []
  | [i] => [numbered pc i.render]
  | i :: j :: rest =>
    match i.kind with
    | .wide base => numbered pc (i.renderWide base j) :: listFrom (pc + 2) rest
    | _ => numbered pc i.render :: listFrom (pc + 1) (j :: rest)

/-- A text that is not a whole number of words gets a last line for what is left. -/
def listing (text : Bytes) : List String :=
  let left := text.size % slotSize
  listFrom 0 (instructions text) ++
    if left = 0 then [] else [numbered (slots text) ("<" ++ decimal left ++ " trailing bytes>")]

end Text

end BytecodeVm
