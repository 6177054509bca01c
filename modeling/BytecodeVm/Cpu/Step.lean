import BytecodeVm.Registers
import BytecodeVm.Listing
import BytecodeVm.Syscall.Basic

/-! The processor: one step for one instruction. A step goes on, or it ends the run: at an
exit, past the last instruction, or with an error. -/
namespace BytecodeVm

open Numeral

/-- What the processor reaches for though it does not exist. -/
inductive Trap
  | register (r : Register)
  | slot (number : Int)
  /-- The second word of a double-width load in the last slot. -/
  | secondWord
deriving DecidableEq

namespace Trap

def message : Trap → String
  | .register r => "index out of range [" ++ decimal r.val ++ "] with length 11"
  | .slot number => "slice bounds out of range [" ++ signed (number * Text.slotSize) ++ ":]"
  | .secondWord => "index out of range [7] with length 0"

/-- The slot at which a trap is reported, when it is met in slot `pc`. -/
def reportedAt (pc : Nat) : Trap → Int
  | .slot number => number
  | .register _ | .secondWord => pc

end Trap

inductive StepError
  | operation (f : Fault) (i : Instruction)
  | opcode (op : UInt8)
  | addressWraps (r : Register) (offset : Int16)
  | outOfBranches (limit : UInt32)
  | memory (e : MemoryError)
  | call (e : CallError)
  | panic (text : String)
  /-- The processor itself panics. -/
  | trap (t : Trap)
deriving DecidableEq

namespace StepError

def cause : StepError → Option Cause
  | .operation f _ => some (.fault f)
  | .opcode _ => some (.fault .illegalInstruction)
  | .addressWraps .. => some (.fault .illegalMemory)
  | .memory e => Failure.cause e
  | .outOfBranches _ => some (.fault .outOfBranches)
  | .call e => e.cause
  | .panic _ | .trap _ => none

def fault? (e : StepError) : Option Fault := e.cause.bind Cause.fault?

def isPanic : StepError → Bool
  | .panic _ | .trap _ => true
  | _ => false

def atPc (f : Fault) (pc : Nat) (detail : String) : String :=
  f.message ++ " at pc " ++ decimal pc ++ ": " ++ detail

def message (pc : Nat) : StepError → String
  | .operation f i => atPc f pc i.render
  | .opcode op => atPc .illegalInstruction pc ("opcode 0x" ++ hexByte op)
  | .addressWraps r offset =>
    atPc .illegalMemory pc
      ("address r" ++ decimal r.val ++ withSign offset.toInt ++ " wraps")
  | .outOfBranches limit => atPc .outOfBranches pc ("limit " ++ decimal limit.toNat)
  | .memory e => "pc " ++ decimal pc ++ ": " ++ e.message
  | .call e => "pc " ++ decimal pc ++ ": " ++ e.message
  | .panic text => "vm panic at pc " ++ decimal pc ++ ": " ++ text
  | .trap t => "vm panic at pc " ++ signed (t.reportedAt pc) ++ ": runtime error: " ++ t.message

end StepError

structure Program where
  code : Array Instruction
  lookup : Lookup

def Program.ofText (text : Bytes) (lookup : Lookup) : Program :=
  ⟨(Text.instructions text).toArray, lookup⟩

structure Cpu where
  registers : Registers
  pc : Nat
  budget : BranchBudget
  world : World

inductive Outcome
  | halted (r0 : UInt64)
  | failed (pc : Nat) (e : StepError)
deriving DecidableEq

inductive Step
  | next (s : Cpu)
  | done (outcome : Outcome) (s : Cpu)

def WideBase.address : WideBase → UInt64
  | .absolute => 0
  | .data => RegionTable.dataBase
  | .rodata => RegionTable.rodataBase

namespace Cpu

def fail (s : Cpu) (e : StepError) : Step := .done (.failed s.pc e) s

def halt (s : Cpu) : Step := .done (.halted (s.registers.get .result)) s

def withCell (s : Cpu) (r : Register) (next : Cell → Step) : Step :=
  match r.cell? with
  | some c => next c
  | none => s.fail (.trap (.register r))

def withOperand (s : Cpu) (i : Instruction) (source : Source) (next : UInt64 → Step) : Step :=
  match source with
  | .immediate => next i.operand
  | .register => s.withCell i.src fun src => next (s.registers.get src)

def assign (s : Cpu) (c : Cell) (v : UInt64) : Step :=
  .next { s with registers := s.registers.set c v, pc := s.pc + 1 }

def land (s : Cpu) (slot : Int) : Step :=
  if slot < 0 then s.fail (.trap (.slot slot)) else .next { s with pc := slot.toNat }

def arguments (s : Cpu) : Arguments where
  r1 := s.registers.get .first
  r2 := s.registers.get .second
  r3 := s.registers.get .third
  r4 := s.registers.get .fourth
  r5 := s.registers.get .fifth

def stepAlu (s : Cpu) (i : Instruction) (width : AluWidth) (op : AluOp) (source : Source) : Step :=
  s.withCell i.dst fun dst => s.withOperand i source fun src =>
    match op.result width (s.registers.get dst) src with
    | .ok v => s.assign dst v
    | .error f => s.fail (.operation f i)

/-- An unknown operation fails once its operands are read. -/
def stepUnknown (s : Cpu) (i : Instruction) (e : StepError) : Step :=
  s.withCell i.dst fun _ => s.withOperand i (Opcode.source i.opcode) fun _ => s.fail e

/-- The jump lands on the slot after its target. -/
def stepJump (s : Cpu) (i : Instruction) (c : Condition) (source : Source) : Step :=
  s.withCell i.dst fun dst => s.withOperand i source fun src =>
    if c.holds (s.registers.get dst) src then
      match s.budget.consume with
      | none => s.fail (.outOfBranches s.budget.limit)
      | some budget => { s with budget := budget }.land (s.pc + i.offset.toInt + 1)
    else .next { s with pc := s.pc + 1 }

def stepCall (s : Cpu) (lookup : Lookup) (i : Instruction) : Step :=
  match lookup i.uimm with
  | none => s.fail (.call (.unknown i.uimm))
  | some handler =>
    let (reply, world) := handler s.world s.arguments
    let s := { s with world := world }
    match reply with
    | .value v => s.assign .result v
    | .error e => s.fail (.call e)
    | .panic text => s.fail (.panic text)

def stepWide (s : Cpu) (base : WideBase) (low : Instruction) (high : Option Instruction) : Step :=
  match high with
  | none => s.fail (.trap .secondWord)
  | some high => s.withCell low.dst fun dst =>
    let v := base.address + Instruction.wideImm low high
    .next { s with registers := s.registers.set dst v, pc := s.pc + 2 }

def stepLoad (s : Cpu) (i : Instruction) (size : AccessSize) : Step :=
  s.withCell i.src fun src =>
    match effectiveAddress (s.registers.get src) i.offset with
    | none => s.fail (.addressWraps i.src i.offset)
    | some addr =>
      match s.world.memory.load addr size.bytes with
      | .ok v => s.withCell i.dst fun dst => s.assign dst v
      | .error e => s.fail (.memory e)

def stepStore (s : Cpu) (i : Instruction) (size : AccessSize) (source : Source) : Step :=
  s.withCell i.dst fun dst =>
    match effectiveAddress (s.registers.get dst) i.offset with
    | none => s.fail (.addressWraps i.dst i.offset)
    | some addr => s.withOperand i source fun v =>
      match s.world.memory.store addr size.bytes v with
      | .ok memory => .next { s with world.memory := memory, pc := s.pc + 1 }
      | .error e => s.fail (.memory e)

def execute (p : Program) (s : Cpu) (i : Instruction) : Step :=
  match i.kind with
  | .alu width op source => s.stepAlu i width op source
  | .unknownAlu => s.stepUnknown i (.operation .illegalInstruction i)
  | .jump c source => s.stepJump i c source
  | .unknownJump => s.stepUnknown i (.opcode i.opcode)
  | .call => s.stepCall p.lookup i
  | .exit => s.halt
  | .wide base => s.stepWide base i p.code[s.pc + 1]?
  | .load size => s.stepLoad i size
  | .storeImmediate size => s.stepStore i size .immediate
  | .storeRegister size => s.stepStore i size .register
  | .undefined => s.fail (.opcode i.opcode)

def step (p : Program) (s : Cpu) : Step :=
  match p.code[s.pc]? with
  | none => s.halt
  | some i => s.execute p i

end Cpu

end BytecodeVm
