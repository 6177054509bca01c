import BytecodeVm.Cpu.Step

/-! What a step of the processor can do, and the run that repeats it. Each taken jump costs a branch
and every other step moves on in the text, so a run ends: what remains of the budget, counted in
whole passes over the text, and the way to the end of the text shrink together. -/
namespace BytecodeVm

theorem BranchBudget.remaining_of_consume {b b' : BranchBudget} (h : b.consume = some b') :
    b.remaining.toNat = b'.remaining.toNat + 1 := by
  unfold consume at h
  split at h
  · simp at h
  · rename_i pos
    simp only [Option.some.injEq] at h
    subst h
    have : b.remaining.toNat ≠ 0 := fun zero => pos (UInt32.toNat_inj.mp zero)
    simp only [UInt32.toNat_sub_of_le b.remaining 1 (by
      rw [UInt32.le_iff_toNat_le]; simp only [UInt32.reduceToNat]; omega)]
    simp only [UInt32.reduceToNat]
    omega

namespace Cpu

/-- The instruction `i` takes the processor from `s` to the given state. -/
inductive Moves (p : Program) (s : Cpu) (i : Instruction) : Cpu → Prop
  | computed {width op source} (kind : i.kind = .alu width op source) (dst : Cell) (v : UInt64) :
      Moves p s i { s with registers := s.registers.set dst v, pc := s.pc + 1 }
  | loaded {size} (kind : i.kind = .load size) (dst : Cell) (v : UInt64) :
      Moves p s i { s with registers := s.registers.set dst v, pc := s.pc + 1 }
  | loadedWide {base high} (kind : i.kind = .wide base) (second : p.code[s.pc + 1]? = some high)
      (dst : Cell) (v : UInt64) :
      Moves p s i { s with registers := s.registers.set dst v, pc := s.pc + 2 }
  | stored {size addr v memory}
      (kind : i.kind = .storeImmediate size ∨ i.kind = .storeRegister size)
      (written : s.world.memory.store addr size.bytes v = .ok memory) :
      Moves p s i { s with world.memory := memory, pc := s.pc + 1 }
  | called {handler v world} (kind : i.kind = .call) (found : p.lookup i.uimm = some handler)
      (answer : handler s.world s.arguments = (.value v, world)) :
      Moves p s i
        { s with world := world, registers := s.registers.set .result v, pc := s.pc + 1 }
  | passed {c source} (kind : i.kind = .jump c source) : Moves p s i { s with pc := s.pc + 1 }
  | jumped {c source budget} (kind : i.kind = .jump c source)
      (paid : s.budget.consume = some budget) (inside : 0 ≤ s.pc + i.offset.toInt + 1) :
      Moves p s i { s with budget := budget, pc := (s.pc + i.offset.toInt + 1).toNat }

/-- The instruction `i` ends the run in state `s` with the given outcome and last state. -/
inductive Stops (p : Program) (s : Cpu) (i : Instruction) : Outcome → Cpu → Prop
  | exited (kind : i.kind = .exit) : Stops p s i (.halted (s.registers.get .result)) s
  | divided {width op source} (kind : i.kind = .alu width op source) :
      Stops p s i (.failed s.pc (.operation .illegalDivision i)) s
  | unknownOperation (kind : i.kind = .unknownAlu) :
      Stops p s i (.failed s.pc (.operation .illegalInstruction i)) s
  | unknownOpcode (kind : i.kind = .unknownJump ∨ i.kind = .undefined) :
      Stops p s i (.failed s.pc (.opcode i.opcode)) s
  | wrapped (r : Register) : Stops p s i (.failed s.pc (.addressWraps r i.offset)) s
  | refused (e : MemoryError) : Stops p s i (.failed s.pc (.memory e)) s
  | exhausted {c source} (kind : i.kind = .jump c source) (empty : s.budget.consume = none) :
      Stops p s i (.failed s.pc (.outOfBranches s.budget.limit)) s
  | unknownCall (kind : i.kind = .call) (missing : p.lookup i.uimm = none) :
      Stops p s i (.failed s.pc (.call (.unknown i.uimm))) s
  | callFailed {handler e world} (kind : i.kind = .call) (found : p.lookup i.uimm = some handler)
      (answer : handler s.world s.arguments = (.error e, world)) :
      Stops p s i (.failed s.pc (.call e)) { s with world := world }
  | callPanicked {handler text world} (kind : i.kind = .call)
      (found : p.lookup i.uimm = some handler)
      (answer : handler s.world s.arguments = (.panic text, world)) :
      Stops p s i (.failed s.pc (.panic text)) { s with world := world }
  | noRegister {r : Register} (named : r = i.dst ∨ r = i.src) (missing : r.cell? = none) :
      Stops p s i (.failed s.pc (.trap (.register r))) s
  | noSlot {c source budget} (kind : i.kind = .jump c source)
      (paid : s.budget.consume = some budget) (outside : s.pc + i.offset.toInt + 1 < 0) :
      Stops p s i (.failed s.pc (.trap (.slot (s.pc + i.offset.toInt + 1))))
        { s with budget := budget }
  | noSecondWord {base} (kind : i.kind = .wide base) (missing : p.code[s.pc + 1]? = none) :
      Stops p s i (.failed s.pc (.trap .secondWord)) s

def Explains (p : Program) (s : Cpu) (i : Instruction) : Step → Prop
  | .next s' => Moves p s i s'
  | .done outcome s' => Stops p s i outcome s'

section

variable {p : Program} {s : Cpu} {i : Instruction}

theorem explains_withCell {r : Register} {next : Cell → Step} (named : r = i.dst ∨ r = i.src)
    (h : ∀ c, Explains p s i (next c)) : Explains p s i (s.withCell r next) := by
  unfold withCell
  split
  · exact h _
  · rename_i missing
    exact .noRegister named missing

theorem explains_withOperand {source : Source} {next : UInt64 → Step}
    (h : ∀ v, Explains p s i (next v)) : Explains p s i (s.withOperand i source next) := by
  cases source with
  | immediate => exact h _
  | register => exact explains_withCell (.inr rfl) fun c => h _

theorem error_of_apply {op : AluOp} {dst src : UInt64} {f : Fault}
    (h : op.apply dst src = .error f) : f = .illegalDivision := by
  cases op with
  | div | mod =>
    simp only [AluOp.apply] at h
    split at h
    · cases h
      rfl
    · cases h
  | add | sub | mul | or | and | lsh | rsh | neg | xor | mov | arsh => cases h

theorem explains_stepAlu {width : AluWidth} {op : AluOp} {source : Source}
    (kind : i.kind = .alu width op source) : Explains p s i (s.stepAlu i width op source) := by
  refine explains_withCell (.inl rfl) fun dst => explains_withOperand fun src => ?_
  cases result : op.apply (s.registers.get dst) src with
  | ok v =>
    simp only [AluOp.result, result, Except.map]
    exact .computed kind dst _
  | error f =>
    obtain rfl := error_of_apply result
    simp only [AluOp.result, result, Except.map]
    exact .divided kind

theorem explains_stepJump {c : Condition} {source : Source} (kind : i.kind = .jump c source) :
    Explains p s i (s.stepJump i c source) := by
  refine explains_withCell (.inl rfl) fun dst => explains_withOperand fun src => ?_
  split
  · split
    · rename_i empty
      exact .exhausted kind empty
    · rename_i budget paid
      unfold land
      split
      · rename_i outside
        exact .noSlot kind paid outside
      · rename_i inside
        exact .jumped kind paid (Int.not_lt.mp inside)
  · exact .passed kind

theorem explains_stepCall (kind : i.kind = .call) : Explains p s i (s.stepCall p.lookup i) := by
  unfold stepCall
  cases found : p.lookup i.uimm with
  | none => exact .unknownCall kind found
  | some handler =>
    cases answer : handler s.world s.arguments with
    | mk reply world =>
      simp only [answer]
      cases reply with
      | value v => exact .called kind found answer
      | error e => exact .callFailed kind found answer
      | panic text => exact .callPanicked kind found answer

theorem explains_stepWide {base : WideBase} (kind : i.kind = .wide base) :
    Explains p s i (s.stepWide base i p.code[s.pc + 1]?) := by
  cases second : p.code[s.pc + 1]? with
  | none => exact .noSecondWord kind second
  | some high => exact explains_withCell (.inl rfl) fun dst => .loadedWide kind second dst _

theorem explains_stepLoad {size : AccessSize} (kind : i.kind = .load size) :
    Explains p s i (s.stepLoad i size) := by
  refine explains_withCell (.inr rfl) fun src => ?_
  split
  · exact .wrapped _
  · split
    · exact explains_withCell (.inl rfl) fun dst => .loaded kind dst _
    · exact .refused _

theorem explains_stepStore {size : AccessSize} {source : Source}
    (kind : i.kind = .storeImmediate size ∨ i.kind = .storeRegister size) :
    Explains p s i (s.stepStore i size source) := by
  refine explains_withCell (.inl rfl) fun dst => ?_
  split
  · exact .wrapped _
  · refine explains_withOperand fun v => ?_
    split
    · rename_i memory written
      exact .stored kind written
    · exact .refused _

theorem explains_stepUnknown {e : StepError} (h : Stops p s i (.failed s.pc e) s) :
    Explains p s i (s.stepUnknown i e) :=
  explains_withCell (.inl rfl) fun _ => explains_withOperand fun _ => h

theorem explains_execute : Explains p s i (s.execute p i) := by
  unfold execute
  cases kind : i.kind with
  | alu width op source => exact explains_stepAlu kind
  | unknownAlu => exact explains_stepUnknown (.unknownOperation kind)
  | jump c source => exact explains_stepJump kind
  | unknownJump => exact explains_stepUnknown (.unknownOpcode (.inl kind))
  | call => exact explains_stepCall kind
  | exit => exact .exited kind
  | wide base => exact explains_stepWide kind
  | load size => exact explains_stepLoad kind
  | storeImmediate size => exact explains_stepStore (.inl kind)
  | storeRegister size => exact explains_stepStore (.inr kind)
  | undefined => exact .unknownOpcode (.inr kind)

end

theorem moves_of_step {p : Program} {s s' : Cpu} (h : s.step p = .next s') :
    ∃ i, p.code[s.pc]? = some i ∧ Moves p s i s' := by
  unfold step at h
  split at h
  · cases h
  · rename_i i fetched
    have explained := explains_execute (p := p) (s := s) (i := i)
    rw [h] at explained
    exact ⟨i, fetched, explained⟩

theorem stops_of_step {p : Program} {s t : Cpu} {outcome : Outcome}
    (h : s.step p = .done outcome t) :
    (p.code[s.pc]? = none ∧ outcome = .halted (s.registers.get .result) ∧ t = s) ∨
      ∃ i, p.code[s.pc]? = some i ∧ Stops p s i outcome t := by
  unfold step at h
  split at h
  · rename_i outside
    cases h
    exact .inl ⟨outside, rfl, rfl⟩
  · rename_i i fetched
    have explained := explains_execute (p := p) (s := s) (i := i)
    rw [h] at explained
    exact .inr ⟨i, fetched, explained⟩

/-! ## Runs -/

def distance (p : Program) (s : Cpu) : Nat :=
  s.budget.remaining.toNat * p.code.size + (p.code.size - s.pc)

/-- A step moves on in the text for free, or it costs a branch. -/
def Advances (s s' : Cpu) : Prop :=
  s'.budget = s.budget ∧ s.pc < s'.pc ∨ s.budget.consume = some s'.budget

theorem Advances.distance_lt {p : Program} {s s' : Cpu} (inside : s.pc < p.code.size)
    (h : s.Advances s') : s'.distance p < s.distance p := by
  simp only [distance]
  cases h with
  | inl free => rw [free.1]; omega
  | inr paid => rw [BranchBudget.remaining_of_consume paid, Nat.add_mul]; omega

theorem Moves.advances {p : Program} {s s' : Cpu} {i : Instruction} (h : Moves p s i s') :
    s.Advances s' := by
  cases h with
  | jumped _ paid _ => exact .inr paid
  | loadedWide => exact .inl ⟨rfl, Nat.lt_add_of_pos_right (Nat.succ_pos 1)⟩
  | computed | loaded | stored | called | passed => exact .inl ⟨rfl, Nat.lt_succ_self _⟩

theorem distance_lt_of_step {p : Program} {s s' : Cpu} (h : s.step p = .next s') :
    s'.distance p < s.distance p := by
  obtain ⟨i, fetched, moves⟩ := moves_of_step h
  exact moves.advances.distance_lt (Array.getElem?_eq_some_iff.mp fetched).1

def run (p : Program) (s : Cpu) : Outcome × Cpu :=
  match _h : s.step p with
  | .done outcome s => (outcome, s)
  | .next s => run p s
termination_by s.distance p
decreasing_by exact distance_lt_of_step _h

end Cpu

end BytecodeVm
