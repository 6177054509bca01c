import BytecodeVm.Proofs.Encoding
import BytecodeVm.Proofs.Grammar
import Mathlib

/-! Arithmetic instructions. Narrow arithmetic is done on 64 bits and cut down afterwards. Taking
the low half of a word commutes with the operations whose low bits do not depend on higher ones, so
for these the cut gives 32-bit arithmetic on the low halves. Division, remainder and the right shift
bring higher bits down, and agree with 32-bit arithmetic on operands that have none. -/
namespace BytecodeVm

namespace AluOp

def code : AluOp → UInt8
  | .add => 0x00
  | .sub => 0x10
  | .mul => 0x20
  | .div => 0x30
  | .or => 0x40
  | .and => 0x50
  | .lsh => 0x60
  | .rsh => 0x70
  | .neg => 0x80
  | .mod => 0x90
  | .xor => 0xa0
  | .mov => 0xb0
  | .arsh => 0xc0

def unusedCodes : List UInt8 := [0xd0, 0xe0, 0xf0]

/-- On the two operands the operation is the 32-bit operation on their low halves, with the given
result. -/
inductive Narrows (dst src : UInt64) : AluOp → UInt32 → Prop
  | add : Narrows dst src .add (dst.toUInt32 + src.toUInt32)
  | sub : Narrows dst src .sub (dst.toUInt32 - src.toUInt32)
  | mul : Narrows dst src .mul (dst.toUInt32 * src.toUInt32)
  | or : Narrows dst src .or (dst.toUInt32 ||| src.toUInt32)
  | and : Narrows dst src .and (dst.toUInt32 &&& src.toUInt32)
  | xor : Narrows dst src .xor (dst.toUInt32 ^^^ src.toUInt32)
  | mov : Narrows dst src .mov src.toUInt32
  | neg : Narrows dst src .neg (-dst.toUInt32)
  | div (short : dst.toNat < 2 ^ 32) (short' : src.toNat < 2 ^ 32) :
      Narrows dst src .div (dst.toUInt32 / src.toUInt32)
  | mod (short : dst.toNat < 2 ^ 32) (short' : src.toNat < 2 ^ 32) :
      Narrows dst src .mod (dst.toUInt32 % src.toUInt32)
  | rsh (short : dst.toNat < 2 ^ 32) (amount : src.toNat < 32) :
      Narrows dst src .rsh (dst.toUInt32 >>> src.toUInt32)

theorem code_inj {op op' : AluOp} (h : op.code = op'.code) : op = op' := by
  cases op <;> cases op' <;> first | rfl | exact absurd h (by decide)

theorem code_not_unused (op : AluOp) : op.code ∉ unusedCodes := by
  cases op <;> decide

theorem code_eq_division_iff (op : AluOp) :
    (op.code = 0x30 ∨ op.code = 0x90) ↔ (op = .div ∨ op = .mod) := by
  cases op <;> decide

theorem result_cases (op : AluOp) (width : AluWidth) (dst src : UInt64) :
    ((op = .div ∨ op = .mod) ∧ src = 0 ∧ op.result width dst src = .error .illegalDivision) ∨
      (¬((op = .div ∨ op = .mod) ∧ src = 0) ∧
        ∃ v, op.apply dst src = .ok v ∧ op.result width dst src = .ok (width.keep v)) := by
  cases op with
  | div | mod =>
    by_cases zero : src = 0
    · exact .inl ⟨by simp, zero, by simp [result, apply, zero, Except.map]⟩
    · refine .inr ⟨fun division => zero division.2, _, if_neg zero, ?_⟩
      simp only [result, apply, if_neg zero, Except.map]
  | add | sub | mul | or | and | lsh | rsh | neg | xor | mov | arsh =>
    exact .inr ⟨by simp, _, rfl, rfl⟩

end AluOp

def AluWidth.ofByte (b : UInt8) : AluWidth := if b &&& 7 = 4 then .low32 else .full64

theorem AluWidth.toNat_keep_low32 (v : UInt64) : (low32.keep v).toNat = v.toNat % 2 ^ 32 := by
  rw [keep, UInt64.toNat_and]
  exact Nat.and_two_pow_sub_one_eq_mod v.toNat 32

theorem AluWidth.keep_low32 (v : UInt64) : low32.keep v = v.toUInt32.toUInt64 := by
  apply UInt64.toNat_inj.mp
  rw [toNat_keep_low32, UInt32.toNat_toUInt64, UInt64.toNat_toUInt32]

theorem toUInt32_shiftRight {x k : UInt64} (short : x.toNat < 2 ^ 32) (amount : k.toNat < 32) :
    (x >>> (k &&& 63)).toUInt32 = x.toUInt32 >>> k.toUInt32 := by
  have wide : (k &&& 63).toNat % 64 = k.toNat := by
    rw [UInt64.toNat_and, show (63 : UInt64).toNat = 2 ^ 6 - 1 from rfl,
      Nat.and_two_pow_sub_one_eq_mod]
    omega
  have narrow : k.toUInt32.toNat % 32 = k.toNat := by
    rw [UInt64.toNat_toUInt32]
    omega
  have shifted : x.toNat >>> k.toNat < 2 ^ 32 := Nat.lt_of_le_of_lt (Nat.shiftRight_le _ _) short
  apply UInt32.toNat_inj.mp
  rw [UInt64.toNat_toUInt32, UInt64.toNat_shiftRight, UInt32.toNat_shiftRight, wide, narrow,
    UInt64.toNat_toUInt32, Nat.mod_eq_of_lt short, Nat.mod_eq_of_lt shifted]

theorem AluOp.keep_of_narrows {op : AluOp} {dst src v : UInt64} {w : UInt32}
    (narrows : Narrows dst src op w) (result : op.apply dst src = .ok v) :
    AluWidth.low32.keep v = w.toUInt64 := by
  rw [AluWidth.keep_low32]
  congr 1
  cases narrows with
  | add => cases result; exact UInt64.toUInt32_add dst src
  | sub => cases result; exact UInt64.toUInt32_sub dst src
  | mul => cases result; exact UInt64.toUInt32_mul dst src
  | or => cases result; exact UInt64.toUInt32_or dst src
  | and => cases result; exact UInt64.toUInt32_and dst src
  | xor => cases result; exact UInt64.toUInt32_xor dst src
  | mov => cases result; rfl
  | neg =>
    cases result
    rw [UInt64.zero_sub, UInt64.toUInt32_neg]
  | div short short' =>
    simp only [apply] at result
    split at result <;> cases result
    exact UInt64.toUInt32_div dst src (UInt64.lt_iff_toNat_lt.mpr short)
      (UInt64.lt_iff_toNat_lt.mpr short')
  | mod short short' =>
    simp only [apply] at result
    split at result <;> cases result
    exact UInt64.toUInt32_mod dst src (UInt64.lt_iff_toNat_lt.mpr short)
      (UInt64.lt_iff_toNat_lt.mpr short')
  | rsh short amount => cases result; exact toUInt32_shiftRight short amount

theorem Opcode.map_code_aluOp? (b : UInt8) :
    (aluOp? b).map AluOp.code =
      if b &&& 0xf0 ∈ AluOp.unusedCodes then none else some (b &&& 0xf0) := by
  revert b
  apply forall_byte
  decide +kernel

theorem Opcode.ofByte_of_arithmetic {b : UInt8} (arithmetic : b &&& 7 = 4 ∨ b &&& 7 = 7) :
    (b &&& 0xf0 ∈ AluOp.unusedCodes ∧ ofByte b = .unknownAlu) ∨
      ∃ op : AluOp, op.code = b &&& 0xf0 ∧
        ofByte b = .alu (AluWidth.ofByte b) op (source b) := by
  have decoded : ofByte b = ofAlu (AluWidth.ofByte b) b := by
    revert b
    apply forall_byte
    decide +kernel
  have named := map_code_aluOp? b
  rw [decoded, ofAlu]
  split at named
  · rename_i unused
    rw [Option.map_eq_none_iff.mp named]
    exact .inl ⟨unused, rfl⟩
  · obtain ⟨op, found, code⟩ := Option.map_eq_some_iff.mp named
    rw [found]
    exact .inr ⟨op, code, rfl⟩

theorem Instruction.operand_eq (i : Instruction) : i.operand = UInt64.ofInt i.imm.toInt := by
  have bits : i.imm.toInt64.toBitVec = BitVec.ofInt 64 i.imm.toInt := by
    rw [← Int32.toInt_toInt64]
    exact BitVec.ofInt_toInt.symm
  apply UInt64.toNat_inj.mp
  change i.imm.toInt64.toBitVec.toNat = _
  rw [bits, BitVec.toNat_ofInt, UInt64.ofInt, UInt64.toNat_ofNat']
  omega

namespace Cpu

def secondOperand (s : Cpu) (i : Instruction) (src : Cell) : UInt64 :=
  if i.opcode &&& 8 = 0 then UInt64.ofInt i.imm.toInt else s.registers.get src

/-- `t` is `s` with the value in the register, one slot further. -/
structure Assigned (s t : Cpu) (c : Cell) (v : UInt64) : Prop where
  value : t.registers.get c = v
  others : ∀ d, d ≠ c → t.registers.get d = s.registers.get d
  slot : t.pc = s.pc + 1
  budget : t.budget = s.budget
  world : t.world = s.world

theorem exists_assigned (s : Cpu) (c : Cell) (v : UInt64) :
    ∃ t, s.assign c v = .next t ∧ s.Assigned t c v :=
  ⟨_, rfl, Registers.get_set_self, fun _ other => Registers.get_set_of_ne other, rfl, rfl, rfl⟩

section

variable {p : Program} {s : Cpu} {i : Instruction} {dst src : Cell}

theorem withOperand_of_cell (present : i.src.cell? = some src) (next : UInt64 → Step) :
    s.withOperand i (Opcode.source i.opcode) next = next (s.secondOperand i src) := by
  unfold Opcode.source secondOperand
  split
  · rw [← Instruction.operand_eq]
    rfl
  · simp only [withOperand, withCell, present]

theorem stepUnknown_of_cells (target : i.dst.cell? = some dst) (present : i.src.cell? = some src)
    (e : StepError) : s.stepUnknown i e = s.fail e := by
  simp only [stepUnknown, withCell, target, withOperand_of_cell present]

theorem stepAlu_of_ok {width : AluWidth} {op : AluOp} {v : UInt64}
    (target : i.dst.cell? = some dst) (present : i.src.cell? = some src)
    (result : op.result width (s.registers.get dst) (s.secondOperand i src) = .ok v) :
    s.stepAlu i width op (Opcode.source i.opcode) = s.assign dst v := by
  simp only [stepAlu, withCell, target, withOperand_of_cell present, result]

theorem stepAlu_of_error {width : AluWidth} {op : AluOp} {f : Fault}
    (target : i.dst.cell? = some dst) (present : i.src.cell? = some src)
    (result : op.result width (s.registers.get dst) (s.secondOperand i src) = .error f) :
    s.stepAlu i width op (Opcode.source i.opcode) = s.fail (.operation f i) := by
  simp only [stepAlu, withCell, target, withOperand_of_cell present, result]

theorem execute_arithmetic (arithmetic : i.opcode &&& 7 = 4 ∨ i.opcode &&& 7 = 7)
    (target : i.dst.cell? = some dst) (present : i.src.cell? = some src) :
    (i.opcode &&& 0xf0 ∈ AluOp.unusedCodes ∧
        s.execute p i = s.fail (.operation .illegalInstruction i)) ∨
      (∃ op : AluOp, op.code = i.opcode &&& 0xf0 ∧ (op = .div ∨ op = .mod) ∧
        s.secondOperand i src = 0 ∧ s.execute p i = s.fail (.operation .illegalDivision i)) ∨
      ∃ (op : AluOp) (v : UInt64), op.code = i.opcode &&& 0xf0 ∧
        ¬((op = .div ∨ op = .mod) ∧ s.secondOperand i src = 0) ∧
        op.apply (s.registers.get dst) (s.secondOperand i src) = .ok v ∧
        s.execute p i = s.assign dst ((AluWidth.ofByte i.opcode).keep v) := by
  obtain ⟨unused, kind⟩ | ⟨op, code, kind⟩ := Opcode.ofByte_of_arithmetic arithmetic
  · refine .inl ⟨unused, ?_⟩
    have unknown : i.kind = .unknownAlu := kind
    simp only [execute, unknown]
    exact stepUnknown_of_cells target present _
  · have known : i.kind = .alu _ op _ := kind
    simp only [execute, known]
    obtain ⟨division, zero, result⟩ | ⟨possible, v, applied, result⟩ :=
      op.result_cases (AluWidth.ofByte i.opcode) (s.registers.get dst) (s.secondOperand i src)
    · exact .inr (.inl ⟨op, code, division, zero, stepAlu_of_error target present result⟩)
    · exact .inr (.inr ⟨op, v, code, possible, applied, stepAlu_of_ok target present result⟩)

theorem fail_operation_inj {f g : Fault}
    (same : s.fail (.operation f i) = s.fail (.operation g i)) : f = g := by
  injection same with outcome
  injection outcome with _ error
  injection error

theorem execute_eq_division_iff (arithmetic : i.opcode &&& 7 = 4 ∨ i.opcode &&& 7 = 7)
    (target : i.dst.cell? = some dst) (present : i.src.cell? = some src) :
    s.execute p i = s.fail (.operation .illegalDivision i) ↔
      (i.opcode &&& 0xf0 = 0x30 ∨ i.opcode &&& 0xf0 = 0x90) ∧ s.secondOperand i src = 0 := by
  obtain ⟨unused, done⟩ | ⟨op, code, division, zero, done⟩ | ⟨op, v, code, possible, _, done⟩ :=
    execute_arithmetic (p := p) (s := s) arithmetic target present
  · rw [done]
    constructor
    · intro same
      exact absurd (fail_operation_inj same) (by decide)
    · rintro ⟨division | division, _⟩ <;>
      · rw [division] at unused
        exact absurd unused (by decide)
  · rw [done, ← code, AluOp.code_eq_division_iff]
    exact ⟨fun _ => ⟨division, zero⟩, fun _ => rfl⟩
  · rw [done, ← code, AluOp.code_eq_division_iff]
    exact ⟨fun same => (by cases same), fun division => absurd division possible⟩

theorem execute_eq_instruction_iff (arithmetic : i.opcode &&& 7 = 4 ∨ i.opcode &&& 7 = 7)
    (target : i.dst.cell? = some dst) (present : i.src.cell? = some src) :
    s.execute p i = s.fail (.operation .illegalInstruction i) ↔
      i.opcode &&& 0xf0 ∈ AluOp.unusedCodes := by
  obtain ⟨unused, done⟩ | ⟨op, code, _, _, done⟩ | ⟨op, v, code, _, _, done⟩ :=
    execute_arithmetic (p := p) (s := s) arithmetic target present
  · rw [done]
    exact ⟨fun _ => unused, fun _ => rfl⟩
  · rw [done, ← code]
    refine ⟨fun same => ?_, fun unused => absurd unused op.code_not_unused⟩
    exact absurd (fail_operation_inj same) (by decide)
  · rw [done, ← code]
    exact ⟨fun same => (by cases same), fun unused => absurd unused op.code_not_unused⟩

/-- An arithmetic instruction fails on a division by zero and on an unused code and then changes
nothing; else it changes its destination alone. A narrow one leaves a 32-bit number there, which is
the result of 32-bit arithmetic on the low halves of the operands wherever `AluOp.Narrows` says so.
-/
theorem arithmetic_exact (p : Program) (s : Cpu) (i : Instruction) (dst src : Cell)
    (arithmetic : i.opcode &&& 7 = 4 ∨ i.opcode &&& 7 = 7)
    (target : i.dst.cell? = some dst) (present : i.src.cell? = some src) :
    let code := i.opcode &&& 0xf0
    let operand := s.secondOperand i src
    (s.execute p i = s.fail (.operation .illegalDivision i) ↔
        (code = 0x30 ∨ code = 0x90) ∧ operand = 0) ∧
      (s.execute p i = s.fail (.operation .illegalInstruction i) ↔
        code = 0xd0 ∨ code = 0xe0 ∨ code = 0xf0) ∧
      ((∃ f, (f = .illegalDivision ∨ f = .illegalInstruction) ∧
          s.execute p i = .done (.failed s.pc (.operation f i)) s) ∨
        ∃ (t : Cpu) (v : UInt64), s.execute p i = .next t ∧ s.Assigned t dst v ∧
          (i.opcode &&& 7 = 4 → v.toNat < 2 ^ 32 ∧
            ∀ (op : AluOp) (w : UInt32), op.code = code →
              AluOp.Narrows (s.registers.get dst) operand op w → v = w.toUInt64)) := by
  refine ⟨execute_eq_division_iff arithmetic target present, ?_, ?_⟩
  · rw [execute_eq_instruction_iff arithmetic target present]
    simp [AluOp.unusedCodes]
  obtain ⟨_, done⟩ | ⟨_, _, _, _, done⟩ | ⟨op, v, code, _, applied, done⟩ :=
    execute_arithmetic (p := p) (s := s) arithmetic target present
  · exact .inl ⟨_, .inr rfl, done⟩
  · exact .inl ⟨_, .inl rfl, done⟩
  · obtain ⟨t, next, assigned⟩ := s.exists_assigned dst ((AluWidth.ofByte i.opcode).keep v)
    refine .inr ⟨t, _, done.trans next, assigned, fun narrow => ?_⟩
    rw [AluWidth.ofByte, if_pos narrow]
    refine ⟨?_, fun op' w code' narrows => ?_⟩
    · rw [AluWidth.toNat_keep_low32]
      exact Nat.mod_lt _ (by decide)
    · obtain rfl := AluOp.code_inj (code'.trans code.symm)
      exact AluOp.keep_of_narrows narrows applied

end

theorem arithmetic_exact_square :
    let host : Surroundings := ⟨.inMemory 16, .silent, 0⟩
    let s : Cpu := ⟨.initial 0xfffffffff0000003 0, 0, .ofLimit 5, ⟨.blank, none, host⟩⟩
    let square : Instruction := ⟨0x2c, 1, 1, 0, 0⟩
    let remainder : Instruction := ⟨0x94, 1, 0, 0, 0⟩
    let p : Program := ⟨#[square, remainder], noSyscalls⟩
    (∃ t, s.execute p square = .next t ∧ t.registers.get .first = 0xa0000009) ∧
      s.execute p remainder = s.fail (.operation .illegalDivision remainder) := by
  intro host s square remainder p
  have squared := arithmetic_exact p s square .first .first (by decide) rfl rfl
  have divided := arithmetic_exact p s remainder .first .result (by decide) rfl rfl
  refine ⟨?_, divided.1.mpr (by decide)⟩
  obtain ⟨division, unused, ⟨f, rfl | rfl, failed⟩ | ⟨t, v, next, assigned, narrow⟩⟩ := squared
  · exact absurd (division.mp failed) (by decide)
  · exact absurd (unused.mp failed) (by decide)
  · have product := (narrow (by decide)).2 .mul _ (by decide) .mul
    exact ⟨t, next, assigned.value.trans (product.trans (by decide +kernel))⟩

end Cpu

end BytecodeVm
