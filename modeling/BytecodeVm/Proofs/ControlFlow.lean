import BytecodeVm.Proofs.Calls
import BytecodeVm.Proofs.LinearScan
import BytecodeVm.Proofs.Steps

/-! Control flow of verified texts. The processor stands at the start of an instruction or past
the last one whenever it looks at the next slot, so it reaches for nothing that does not exist,
and only a host function can panic. -/
namespace BytecodeVm

open LinearScan

/-- A slot from which the processor can safely go on. -/
structure SafeSlot (code : List Instruction) (pc : Nat) : Prop where
  place : pc = code.length ∨ IsStart code pc
  notSecond : ¬ IsSecond code pc
  registers : ∀ i, code[pc]? = some i → i.dst.val < 11 ∧ i.src.val < 11
  secondWord : ∀ i, code[pc]? = some i → i.isWide = true → pc + 1 < code.length
  landing : ∀ i, code[pc]? = some i → i.namesTarget = true →
    0 ≤ pc + i.offset.toInt + 1 ∧ pc + i.offset.toInt + 1 ≤ code.length

namespace Cpu

theorem namesTarget_of_jump {i : Instruction} {c : Condition} {source : Source}
    (kind : i.kind = .jump c source) : i.namesTarget = true := by
  simp [Instruction.namesTarget, kind]

theorem isWide_of_wide {i : Instruction} {base : WideBase} (kind : i.kind = .wide base) :
    i.isWide = true := by
  simp [Instruction.isWide, kind]

theorem Moves.pc_eq {p : Program} {s s' : Cpu} {i : Instruction} (h : Moves p s i s') :
    s'.pc = s.pc + i.width ∨
      ∃ c source, i.kind = .jump c source ∧ s.budget.consume = some s'.budget ∧
        0 ≤ s.pc + i.offset.toInt + 1 ∧ s'.pc = (s.pc + i.offset.toInt + 1).toNat := by
  cases h with
  | jumped kind paid inside => exact .inr ⟨_, _, kind, paid, inside, rfl⟩
  | loadedWide kind second dst v =>
    rw [Instruction.width_of_isWide (isWide_of_wide kind)]
    exact .inl rfl
  | computed kind | loaded kind | called kind | passed kind =>
    rw [Instruction.width_of_not_isWide (by simp [Instruction.isWide, kind])]
    exact .inl rfl
  | stored kind =>
    rw [Instruction.width_of_not_isWide (by rcases kind with kind | kind <;>
      simp [Instruction.isWide, kind])]
    exact .inl rfl

end Cpu

section

variable {text : Bytes} {lookup : Lookup} {openEnd : Bool}

theorem getElem?_ofText (text : Bytes) (lookup : Lookup) (pc : Nat) :
    (Program.ofText text lookup).code[pc]? = (Text.instructions text)[pc]? := by
  simp [Program.ofText]

theorem safeSlot_of_scans
    (accepted : Verifier.verify (fun code => (lookup code).isSome) openEnd text = .ok ())
    {pc : Nat} (scanned : Scans (Text.instructions text) 0 pc)
    (inside : pc ≤ (Text.instructions text).length) : SafeSlot (Text.instructions text) pc where
  place := by
    rcases Nat.eq_or_lt_of_le inside with at_end | before
    · exact .inl at_end
    · exact .inr ⟨scanned, before⟩
  notSecond := not_isSecond_of_scans scanned
  registers i met := (Verifier.sound_of_verify accepted scanned met).registers
  secondWord i met := (Verifier.sound_of_verify accepted scanned met).complete
  landing i met names := by
    have target := (Verifier.sound_of_verify accepted scanned met).target names
    omega

theorem scans_of_step
    (accepted : Verifier.verify (fun code => (lookup code).isSome) openEnd text = .ok ())
    {s s' : Cpu} (scanned : Scans (Text.instructions text) 0 s.pc)
    (step : s.step (.ofText text lookup) = .next s') :
    Scans (Text.instructions text) 0 s'.pc ∧ s'.pc ≤ (Text.instructions text).length := by
  obtain ⟨i, met, moves⟩ := Cpu.moves_of_step step
  rw [getElem?_ofText] at met
  have sound := Verifier.sound_of_verify accepted scanned met
  rcases moves.pc_eq with onward | ⟨c, source, kind, -, -, landed⟩
  · have inside := (List.getElem?_eq_some_iff.mp met).1
    rw [onward]
    refine ⟨scanned.next met, ?_⟩
    cases wide : i.isWide with
    | false =>
      rw [Instruction.width_of_not_isWide wide]
      omega
    | true =>
      have second := sound.complete wide
      rw [Instruction.width_of_isWide wide]
      omega
  · have names := Cpu.namesTarget_of_jump kind
    have target := sound.target names
    rw [landed]
    exact ⟨sound.landing names, by omega⟩

theorem scans_of_steps
    (accepted : Verifier.verify (fun code => (lookup code).isSome) openEnd text = .ok ())
    {start s : Cpu} {n : Nat} (entry : start.pc = 0)
    (steps : Cpu.Steps (.ofText text lookup) start n s) :
    Scans (Text.instructions text) 0 s.pc ∧ s.pc ≤ (Text.instructions text).length := by
  refine steps.invariant ?_ fun s s' stands step => scans_of_step accepted stands.1 step
  rw [entry]
  exact ⟨.here 0, Nat.zero_le _⟩

theorem cell?_ne_none {r : Register} (exists_ : r.val < 11) : r.cell? ≠ none := by
  simp [Register.cell?, exists_]

theorem panic_of_stops {known : UInt32 → Bool} {s t : Cpu} {i : Instruction} {pc : Nat}
    {e : StepError} (sound : Verifier.Sound known (Text.instructions text) s.pc i)
    (stops : Cpu.Stops (.ofText text lookup) s i (.failed pc e) t) (panics : e.isPanic = true) :
    pc = s.pc ∧ i.kind = .call ∧ ∃ handler message, lookup i.uimm = some handler ∧
      (handler s.world s.arguments).1 = .panic message ∧ e = .panic message := by
  cases stops with
  | callPanicked kind found answer =>
    exact ⟨rfl, kind, _, _, found, congrArg Prod.fst answer, rfl⟩
  | noRegister named missing =>
    have inside := sound.registers
    rcases named with rfl | rfl
    · exact absurd missing (cell?_ne_none inside.1)
    · exact absurd missing (cell?_ne_none inside.2)
  | noSlot kind paid outside =>
    have target := sound.target (Cpu.namesTarget_of_jump kind)
    omega
  | noSecondWord kind missing =>
    have inside := sound.complete (Cpu.isWide_of_wide kind)
    rw [getElem?_ofText, List.getElem?_eq_none_iff] at missing
    omega
  | divided | unknownOperation | unknownOpcode | wrapped | refused | exhausted | unknownCall
  | callFailed => cases panics

end

namespace Instance

theorem run_of_accepted {i : Instance} {image : Container} {lookup : Lookup}
    (loaded : i.image = some image)
    (accepted : Verifier.verify (fun code => (lookup code).isSome) i.config.noReturn image.text =
      .ok ()) (host : Surroundings) (r1 : UInt64) :
    i.run lookup host r1 = { i with state := .running, verified := true }.settle
      ((i.boot host r1).run (.ofText image.text lookup)).1
      ((i.boot host r1).run (.ofText image.text lookup)).2 :=
  run_of_passed loaded (.inr ⟨image, loaded, accepted⟩)

/-- Every run of an accepted text stands on safe slots only, and if it ends in a panic then it
was a host function that panicked. -/
theorem control_flow_of_accepted (i : Instance) (image : Container) (lookup : Lookup)
    (host : Surroundings) (r1 : UInt64) (loaded : i.image = some image)
    (accepted : Verifier.verify (fun code => (lookup code).isSome) i.config.noReturn image.text =
      .ok ()) :
    (∀ n s, Cpu.Steps (.ofText image.text lookup) (i.boot host r1) n s →
        SafeSlot (Text.instructions image.text) s.pc) ∧
      ∀ pc e, (i.run lookup host r1).1 = .error (.stopped pc e) → e.isPanic = true →
        ∃ n s ins handler message, Cpu.Steps (.ofText image.text lookup) (i.boot host r1) n s ∧
          s.pc = pc ∧ (Text.instructions image.text)[pc]? = some ins ∧ ins.kind = .call ∧
          lookup ins.uimm = some handler ∧
          (handler s.world s.arguments).1 = .panic message ∧ e = .panic message := by
  constructor
  · intro n s steps
    obtain ⟨scanned, inside⟩ := scans_of_steps accepted rfl steps
    exact safeSlot_of_scans accepted scanned inside
  · intro pc e result panics
    rw [run_of_accepted loaded accepted] at result
    obtain ⟨n, s, steps, last⟩ := Cpu.exists_steps_run (.ofText image.text lookup) (i.boot host r1)
    generalize (i.boot host r1).run (.ofText image.text lookup) = ended at result last
    obtain ⟨outcome, t⟩ := ended
    cases outcome with
    | halted r0 => cases result
    | failed pc' e' =>
      cases result
      obtain ⟨scanned, -⟩ := scans_of_steps accepted rfl steps
      obtain ⟨-, impossible, -⟩ | ⟨ins, met, stops⟩ := Cpu.stops_of_step last
      · cases impossible
      · rw [getElem?_ofText] at met
        have sound := Verifier.sound_of_verify accepted scanned met
        obtain ⟨rfl, kind, handler, message, found, answer, rfl⟩ :=
          panic_of_stops sound stops panics
        exact ⟨n, s, ins, handler, message, steps, rfl, met, kind, found, answer, rfl⟩

end Instance

def Container.ofWords (words : List UInt64) : Container :=
  ContainerSpec.container ⟨1, 0, Bytes.zeros 0, 0, Bytes.zeros 0, Text.assemble words, 0⟩

/-- A jump over a double-width load, a call and an exit. -/
def jumpOverWide : Container :=
  .ofWords [0x0000000000020005, 0x0000000100000018, 0x0000000000000000, 0x0000004000000085,
    0x0000000000000095]

def panicking : Handler := fun w _ => (.panic "broken", w)

theorem control_flow_of_jumpOverWide :
    let lookup : Lookup := fun _ => some panicking
    let i := Instance.create (some jumpOverWide) none .standard
    let host : Surroundings := ⟨.inMemory 16, .silent, 0⟩
    Verifier.verify (fun code => (lookup code).isSome) i.config.noReturn jumpOverWide.text =
        .ok () ∧
      ∀ n s, Cpu.Steps (.ofText jumpOverWide.text lookup) (i.boot host 7) n s →
        SafeSlot (Text.instructions jumpOverWide.text) s.pc :=
  ⟨rfl, (Instance.control_flow_of_accepted _ jumpOverWide _ _ _ rfl rfl).1⟩

end BytecodeVm
