import BytecodeVm.Proofs.ControlFlow

/-! How runs of an accepted text come to their end. A text that may not be left by its end is
meant to finish with an exit, so that a run leaves it there only by a jump to the last slot. The
verifier reads the last slot as an instruction even where it is the second word of a
double-width load; exactly then the text does not finish with an exit, and a run can fall off
its end. -/
namespace BytecodeVm

open LinearScan

def FinishesWithExit (code : List Instruction) : Prop :=
  ∃ pc i, IsStart code pc ∧ code[pc]? = some i ∧ pc + i.width = code.length ∧ i.kind = .exit

def JumpTaken (p : Program) (s s' : Cpu) (target : Int) : Prop :=
  s.step p = .next s' ∧ ∃ i c source, p.code[s.pc]? = some i ∧ i.kind = .jump c source ∧
    s.budget.consume = some s'.budget ∧ s.pc + i.offset.toInt = target

/-- The text finishes with an exit, and a run of it that halts does so in an exit, or past the
last slot right after a taken jump whose target is that slot. -/
structure TerminalExit (text : Bytes) (lookup : Lookup) : Prop where
  finish : FinishesWithExit (Text.instructions text)
  halts : ∀ start : Cpu, start.pc = 0 → ∀ n s r0 t,
    Cpu.Steps (.ofText text lookup) start n s →
    s.step (.ofText text lookup) = .done (.halted r0) t →
    (∃ i, (Text.instructions text)[s.pc]? = some i ∧ i.kind = .exit) ∨
      s.pc = Text.slots text ∧ ∃ m prev, n = m + 1 ∧
        Cpu.Steps (.ofText text lookup) start m prev ∧
        JumpTaken (.ofText text lookup) prev s (Text.slots text - 1)

theorem width_of_exit {i : Instruction} (kind : i.kind = .exit) : i.width = 1 :=
  Instruction.width_of_not_isWide (by simp [Instruction.isWide, kind])

theorem Cpu.Moves.kind_ne_exit {p : Program} {s s' : Cpu} {i : Instruction}
    (h : Moves p s i s') : i.kind ≠ .exit := by
  cases h with
  | computed kind | loaded kind | loadedWide kind | called kind | passed kind | jumped kind =>
    simp [kind]
  | stored kind => rcases kind with kind | kind <;> simp [kind]

section

variable {known : UInt32 → Bool} {text : Bytes} {lookup : Lookup} {openEnd : Bool}

theorem kind_last_of_verify (accepted : Verifier.verify known false text = .ok ()) {i : Instruction}
    (met : (Text.instructions text)[Text.slots text - 1]? = some i) : i.kind = .exit := by
  obtain ⟨-, -, -, ends⟩ := Verifier.parts_of_verify accepted
  have inside := Verifier.slots_pos_of_verify accepted
  rw [Text.getElem?_instructions, if_pos (by omega)] at met
  cases met
  simpa [Verifier.endsInExit] using ends

theorem finishesWithExit_of_verify (accepted : Verifier.verify known false text = .ok ())
    (start : ¬ IsSecond (Text.instructions text) (Text.slots text - 1)) :
    FinishesWithExit (Text.instructions text) := by
  have positive := Verifier.slots_pos_of_verify accepted
  have inside : Text.slots text - 1 < Text.slots text := by omega
  have met : (Text.instructions text)[Text.slots text - 1]? =
      some (Text.fetch text (Text.slots text - 1)) := by
    rw [Text.getElem?_instructions, if_pos inside]
  have kind := kind_last_of_verify accepted met
  refine ⟨_, _, ⟨Verifier.scans_of_verify accepted (Nat.le_of_lt inside) start, ?_⟩, met, ?_, kind⟩
  · simpa using inside
  · rw [width_of_exit kind, Text.length_instructions]
    omega

theorem not_isSecond_of_finishesWithExit (h : FinishesWithExit (Text.instructions text)) :
    ¬ IsSecond (Text.instructions text) (Text.slots text - 1) := by
  obtain ⟨pc, i, ⟨scanned, inside⟩, -, last, kind⟩ := h
  rw [width_of_exit kind, Text.length_instructions] at last
  rw [← last, Nat.add_sub_cancel]
  exact not_isSecond_of_scans scanned

/-- A run that falls off the end has just jumped to the last slot, or passed a double-width load
in the last two. -/
theorem cases_of_past_end
    (accepted : Verifier.verify (fun code => (lookup code).isSome) false text = .ok ())
    {start s : Cpu} {n : Nat} (entry : start.pc = 0)
    (steps : Cpu.Steps (.ofText text lookup) start n s) (at_end : s.pc = Text.slots text) :
    ∃ m prev, n = m + 1 ∧ Cpu.Steps (.ofText text lookup) start m prev ∧
      (JumpTaken (.ofText text lookup) prev s (Text.slots text - 1) ∨
        IsSecond (Text.instructions text) (Text.slots text - 1)) := by
  cases steps with
  | zero =>
    have positive := Verifier.slots_pos_of_verify accepted
    omega
  | @succ m prev _ steps step =>
    refine ⟨m, prev, rfl, steps, ?_⟩
    obtain ⟨scanned, -⟩ := scans_of_steps accepted entry steps
    obtain ⟨i, met, moves⟩ := Cpu.moves_of_step step
    rcases moves.pc_eq with onward | ⟨c, source, kind, paid, inside, landed⟩
    · right
      rw [getElem?_ofText] at met
      rw [at_end] at onward
      cases wide : i.isWide with
      | true =>
        rw [Instruction.width_of_isWide wide] at onward
        exact ⟨prev.pc, i, scanned, met, wide, by omega⟩
      | false =>
        -- the last slot holds an exit, which does not go on
        rw [Instruction.width_of_not_isWide wide] at onward
        rw [show prev.pc = Text.slots text - 1 by omega] at met
        exact absurd (kind_last_of_verify accepted met) moves.kind_ne_exit
    · exact .inl ⟨step, i, c, source, met, kind, paid, by omega⟩

end

theorem Cpu.step_of_wide {p : Program} {s : Cpu} {low high : Instruction} {base : WideBase}
    {dst : Cell} (first : p.code[s.pc]? = some low) (kind : low.kind = .wide base)
    (second : p.code[s.pc + 1]? = some high) (cell : low.dst.cell? = some dst) :
    s.step p = .next
      { s with
        registers := s.registers.set dst (base.address + Instruction.wideImm low high)
        pc := s.pc + 2 } := by
  simp only [step, first, execute, kind, second, stepWide, withCell, cell]

theorem Cpu.step_of_past {p : Program} {s : Cpu} (past : p.code[s.pc]? = none) :
    s.step p = .done (.halted (s.registers.get .result)) s := by
  simp only [step, past, halt]

/-- The run comes from state `s` to the end of the text in one step, without a jump, and halts
there. -/
structure FallsOff (text : Bytes) (lookup : Lookup) (start s : Cpu) : Prop where
  falls : ∃ s', s.step (.ofText text lookup) = .next s' ∧ s'.pc = Text.slots text ∧
    start.run (.ofText text lookup) = (.halted (s'.registers.get .result), s')
  noJump : ∀ s' target, ¬ JumpTaken (.ofText text lookup) s s' target

section

variable {text : Bytes} {lookup : Lookup}

theorem fallsOff_of_isSecond {openEnd : Bool}
    (accepted : Verifier.verify (fun code => (lookup code).isSome) openEnd text = .ok ())
    (second : IsSecond (Text.instructions text) (Text.slots text - 1)) {start s : Cpu} {n : Nat}
    (steps : Cpu.Steps (.ofText text lookup) start n s) (here : s.pc + 2 = Text.slots text) :
    FallsOff text lookup start s := by
  obtain ⟨pc, low, scanned, met, wide, last⟩ := second
  obtain rfl : s.pc = pc := by omega
  obtain ⟨base, kind⟩ := Instruction.exists_kind_of_isWide wide
  have sound := Verifier.sound_of_verify accepted scanned met
  have cell : low.dst.cell? = some ⟨low.dst.val, sound.registers.1⟩ := dif_pos _
  have high : (Program.ofText text lookup).code[s.pc + 1]? =
      some (Text.fetch text (s.pc + 1)) := by
    rw [getElem?_ofText, Text.getElem?_instructions, if_pos (by omega)]
  have first : (Program.ofText text lookup).code[s.pc]? = some low := by
    rw [getElem?_ofText]
    exact met
  have step := Cpu.step_of_wide first kind high cell
  generalize landed : ({ s with registers := _, pc := _ } : Cpu) = s' at step
  have at_end : s'.pc = Text.slots text := by
    rw [← landed]
    exact here
  have past : (Program.ofText text lookup).code[s'.pc]? = none := by
    rw [getElem?_ofText, Text.getElem?_instructions, if_neg (by omega)]
  refine ⟨⟨s', step, at_end, ?_⟩, ?_⟩
  · rw [steps.run_eq, Cpu.run_of_next step, Cpu.run_of_done (Cpu.step_of_past past)]
  · rintro s' target ⟨-, i, c, source, found, jump, -⟩
    cases first.symm.trans found
    cases kind.symm.trans jump

/-- An accepted text ends as it should exactly if its last slot is no second word. If it is one, the
text does not finish with an exit, though that slot reads like one, and a run that comes to the load
falls off the end without a jump. -/
theorem terminal_exit_iff
    (accepted : Verifier.verify (fun code => (lookup code).isSome) false text = .ok ()) :
    (TerminalExit text lookup ↔ ¬ IsSecond (Text.instructions text) (Text.slots text - 1)) ∧
      (IsSecond (Text.instructions text) (Text.slots text - 1) →
        (Text.fetch text (Text.slots text - 1)).kind = .exit ∧
          ¬ FinishesWithExit (Text.instructions text) ∧
          ∀ start : Cpu, start.pc = 0 → ∀ n s, Cpu.Steps (.ofText text lookup) start n s →
            s.pc + 2 = Text.slots text → FallsOff text lookup start s) := by
  refine ⟨⟨fun terminal => not_isSecond_of_finishesWithExit terminal.finish, ?_⟩, ?_⟩
  · intro start_last
    refine ⟨finishesWithExit_of_verify accepted start_last, ?_⟩
    intro start entry n s r0 t steps last
    obtain ⟨-, inside⟩ := scans_of_steps accepted entry steps
    obtain ⟨outside, -, -⟩ | ⟨i, met, stops⟩ := Cpu.stops_of_step last
    · right
      rw [getElem?_ofText, List.getElem?_eq_none_iff, Text.length_instructions] at outside
      rw [Text.length_instructions] at inside
      have at_end : s.pc = Text.slots text := by omega
      obtain ⟨m, prev, counted, before, jump | second⟩ :=
        cases_of_past_end accepted entry steps at_end
      · exact ⟨at_end, m, prev, counted, before, jump⟩
      · exact absurd second start_last
    · left
      rw [getElem?_ofText] at met
      cases stops with
      | exited kind => exact ⟨i, met, kind⟩
  · intro second
    have positive := Verifier.slots_pos_of_verify accepted
    refine ⟨kind_last_of_verify accepted ?_, fun h => not_isSecond_of_finishesWithExit h second,
      fun start entry n s steps here => fallsOff_of_isSecond accepted second steps here⟩
    rw [Text.getElem?_instructions, if_pos (by omega)]

end

theorem terminal_exit_iff_jumpOverWide :
    let lookup : Lookup := fun _ => some fun w a => (.value a.r1, w)
    Verifier.verify (fun code => (lookup code).isSome) false jumpOverWide.text = .ok () ∧
      TerminalExit jumpOverWide.text lookup := by
  refine ⟨rfl, (terminal_exit_iff rfl).1.mpr (not_isSecond_of_scans ?_)⟩
  exact .past rfl (.past rfl (.past rfl (.here 4)))

/-- A double-width load of zero whose second word has the opcode of an exit. -/
def wideAtEnd : Container := .ofWords [0x0000000000000018, 0x0000000000000095]

/-- An accepted text that does not finish with an exit and whose runs fall off its end without a
jump. -/
theorem wideAtEnd_falls_off :
    Verifier.verify (fun code => (noSyscalls code).isSome) false wideAtEnd.text = .ok () ∧
      ¬ FinishesWithExit (Text.instructions wideAtEnd.text) ∧
      ∀ start : Cpu, start.pc = 0 → FallsOff wideAtEnd.text noSyscalls start start := by
  have accepted : Verifier.verify (fun code => (noSyscalls code).isSome) false wideAtEnd.text =
      .ok () := rfl
  have second : IsSecond (Text.instructions wideAtEnd.text) (Text.slots wideAtEnd.text - 1) :=
    ⟨0, _, .here 0, rfl, rfl, rfl⟩
  refine ⟨accepted, fun finish => not_isSecond_of_finishesWithExit finish second,
    fun start entry => fallsOff_of_isSecond accepted second .zero ?_⟩
  rw [entry]
  rfl

end BytecodeVm
