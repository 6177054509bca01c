import BytecodeVm.Fault
import BytecodeVm.Instruction

/-! The registers, what single instructions compute on them, and the budget of branches that an
execution may still take. -/
namespace BytecodeVm

structure Registers where
  cells : Vector UInt64 11
deriving DecidableEq

namespace Registers

def get (r : Registers) (c : Cell) : UInt64 := r.cells.get c

def set (r : Registers) (c : Cell) (v : UInt64) : Registers := ⟨r.cells.set c.val v c.isLt⟩

/-- All zero but the argument in register 1 and the top of the stack in register 10. -/
def initial (r1 r10 : UInt64) : Registers :=
  ⟨#v[0, r1, 0, 0, 0, 0, 0, 0, 0, 0, r10]⟩

end Registers

namespace AluOp

/-- Shift amounts count modulo 64. -/
def apply (op : AluOp) (dst src : UInt64) : Except Fault UInt64 :=
  match op with
  | .add => .ok (dst + src)
  | .sub => .ok (dst - src)
  | .mul => .ok (dst * src)
  | .div => if src = 0 then .error .illegalDivision else .ok (dst / src)
  | .or => .ok (dst ||| src)
  | .and => .ok (dst &&& src)
  | .lsh => .ok (dst <<< (src &&& 63))
  | .rsh => .ok (dst >>> (src &&& 63))
  | .neg => .ok (0 - dst)
  | .mod => if src = 0 then .error .illegalDivision else .ok (dst % src)
  | .xor => .ok (dst ^^^ src)
  | .mov => .ok src
  | .arsh => .ok (dst.toInt64 >>> (src &&& 63).toInt64).toUInt64

end AluOp

/-- Narrow arithmetic keeps the low 32 bits of the 64-bit result. -/
def AluWidth.keep : AluWidth → UInt64 → UInt64
  | .low32, v => v &&& 0xffffffff
  | .full64, v => v

def AluOp.result (op : AluOp) (width : AluWidth) (dst src : UInt64) : Except Fault UInt64 :=
  (op.apply dst src).map width.keep

def Condition.holds (c : Condition) (dst src : UInt64) : Bool :=
  match c with
  | .always => true
  | .eq => dst == src
  | .gt => decide (src < dst)
  | .ge => decide (src ≤ dst)
  | .set => dst &&& src != 0
  | .ne => dst != src
  | .sgt => decide (src.toInt64 < dst.toInt64)
  | .sge => decide (src.toInt64 ≤ dst.toInt64)
  | .lt => decide (dst < src)
  | .le => decide (dst ≤ src)
  | .slt => decide (dst.toInt64 < src.toInt64)
  | .sle => decide (dst.toInt64 ≤ src.toInt64)

def effectiveAddress (base : UInt64) (offset : Int16) : Option UInt64 :=
  if 0 ≤ offset.toInt then
    let addr := base + UInt64.ofNat offset.toInt.toNat
    if base ≤ addr then some addr else none
  else
    let back := UInt64.ofNat offset.toInt.natAbs
    if back ≤ base then some (base - back) else none

structure BranchBudget where
  limit : UInt32
  remaining : UInt32
  consumed : UInt32
deriving DecidableEq

namespace BranchBudget

def defaultLimit : UInt32 := 200

def ofLimit (limit : UInt32) : BranchBudget := ⟨limit, limit, 0⟩

def consume (b : BranchBudget) : Option BranchBudget :=
  if b.remaining = 0 then none
  else some { b with remaining := b.remaining - 1, consumed := b.consumed + 1 }

def reset (b : BranchBudget) : BranchBudget := ofLimit b.limit

end BranchBudget

end BytecodeVm
