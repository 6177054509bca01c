import BytecodeVm.Proofs.Builtins
import BytecodeVm.Proofs.ControlFlow

/-! The faults a program can meet when it calls built-in functions only. These answer every call
with a value, whatever they are called with, as long as the console takes what they write; and the
text was verified. What is left are the four faults that the processor raises on its own. -/
namespace BytecodeVm

def World.Writable (w : World) : Prop := w.host.console.failure = none

/-- A host function that answers with a value, whatever it is called with, and keeps the console
writable. -/
def Answers (handler : Handler) : Prop :=
  ∀ (w : World) (a : Arguments), w.Writable →
    (∃ v, (handler w a).1 = .value v) ∧ (handler w a).2.Writable

theorem Registry.answers_standard {hashing : Bool} {code : UInt32} {handler : Handler}
    (found : (Registry.standard hashing).lookup code = some handler) : Answers handler := by
  intro w a writable
  have effect := Registry.effect_standard found w a
  generalize handler w a = answer at effect ⊢
  cases effect with
  | rejected => exact ⟨⟨_, rfl⟩, writable⟩
  | answered _ console => exact ⟨⟨_, rfl⟩, (congrArg Console.failure console).trans writable⟩
  | printed written =>
    refine ⟨⟨_, rfl⟩, ?_⟩
    rw [Console.write, writable] at written
    cases written
    rfl
  | unprinted refused =>
    rw [Console.write, writable] at refused
    cases refused

def Fault.ofProcessor : List Fault :=
  [illegalInstruction, illegalMemory, outOfBranches, illegalDivision]

/-- An error of the processor's own, neither a host function's nor a panic. -/
structure StepError.Own (e : StepError) : Prop where
  fault : ∃ f ∈ Fault.ofProcessor, e.fault? = some f
  notCall : ∀ call, e ≠ .call call
  notPanic : e.isPanic = false

theorem own_of_stops {text : Bytes} {lookup : Lookup} {s t : Cpu} {i : Instruction} {pc : Nat}
    {e : StepError}
    (sound : Verifier.Sound (fun code => (lookup code).isSome) (Text.instructions text) s.pc i)
    (answers : ∀ code handler, lookup code = some handler → Answers handler)
    (writable : s.world.Writable)
    (stops : Cpu.Stops (.ofText text lookup) s i (.failed pc e) t) : e.Own := by
  have calm : e.isPanic = false := by
    cases panics : e.isPanic with
    | false => rfl
    | true =>
      obtain ⟨-, -, handler, message, found, panicked, -⟩ := panic_of_stops sound stops panics
      obtain ⟨v, answer⟩ := (answers _ _ found s.world s.arguments writable).1
      cases panicked.symm.trans answer
  cases stops with
  | divided | unknownOperation | unknownOpcode | wrapped | refused | exhausted =>
    exact ⟨⟨_, by decide, rfl⟩, nofun, rfl⟩
  | unknownCall kind missing =>
    have known := sound.call kind
    rw [show lookup i.uimm = none from missing] at known
    cases known
  | callFailed kind found answer =>
    obtain ⟨v, value⟩ := (answers _ _ found s.world s.arguments writable).1
    rw [answer] at value
    cases value
  | callPanicked | noRegister | noSlot | noSecondWord => cases calm

def ClosedResult (result : Except RunError Int64) : Prop :=
  ∀ e, result = .error e → e.code ∈ Fault.ofProcessor.map Fault.code ∧
    ∃ pc own, e = .stopped pc own ∧ own.Own

namespace Instance

theorem closedResult_run {i : Instance} {lookup : Lookup} {host : Surroundings}
    (answers : ∀ code handler, lookup code = some handler → Answers handler)
    (accepted : i.Accepted lookup) (writable : host.console.failure = none) (r1 : UInt64) :
    ClosedResult (i.run lookup host r1).1 := by
  intro e failed
  obtain ⟨image, loaded, accepted⟩ := accepted
  rw [run_of_accepted loaded accepted, settle_eq] at failed
  obtain ⟨pc, own, outcome, rfl⟩ := Outcome.failed_of_result failed
  obtain ⟨n, s, steps, last⟩ := Cpu.exists_steps_run (.ofText image.text lookup) (i.boot host r1)
  have still : s.world.Writable :=
    steps.world (R := fun w w' => w.Writable → w'.Writable) (fun _ => id)
      (fun _ _ found w a before => (answers _ _ found w a before).2)
      (fun _ _ _ _ _ _ before => before) (fun _ _ _ h h' before => h' (h before)) writable
  rw [outcome] at last
  rcases Cpu.stops_of_step last with ⟨-, halted, -⟩ | ⟨ins, met, stops⟩
  · cases halted
  · rw [getElem?_ofText] at met
    obtain ⟨scanned, -⟩ := scans_of_steps accepted rfl steps
    have own := own_of_stops (Verifier.sound_of_verify accepted scanned met) answers still stops
    obtain ⟨f, listed, fault⟩ := own.fault
    refine ⟨?_, pc, _, rfl, own⟩
    rw [RunError.code_of_fault (e := .stopped pc _) fault]
    exact List.mem_map_of_mem listed

/-- With built-in functions only and a console that can be written to, a call of a verified
program answers or fails with one of the processor's own four faults. -/
theorem closed_fault_set (i : Instance) (hashing : Bool) (host : Surroundings)
    (up : i.isSetUp = true) (accepted : i.Accepted (Registry.standard hashing).lookup)
    (writable : host.console.failure = none) :
    let lookup := (Registry.standard hashing).lookup
    (∀ r1, ClosedResult (i.execute lookup host r1).result) ∧
      ∀ argument, ClosedResult (i.executeContext lookup host argument).result := by
  intro lookup
  constructor
  · intro r1
    rw [execute_of_setUp up]
    exact closedResult_run (fun _ _ => Registry.answers_standard) (accepted.mapArgument _) writable
      r1
  · intro argument
    rw [executeContext_of_setUp up]
    exact closedResult_run (fun _ _ => Registry.answers_standard)
      (accepted.mapArgument _).openArgument writable _

end Instance

/-- Calls of printf, memcpy, fetch and a hash with an address that is nowhere mapped. -/
def callsWithBadAddress : Container :=
  .ofWords [0xffffffff000001b7, 0x0000000100000085, 0x0000000200000085, 0x0000001200000085,
    0x0000003000000085, 0x0000000000000095]

theorem closed_fault_set_of_badAddress :
    let lookup := (Registry.standard true).lookup
    let host : Surroundings := ⟨.inMemory 16, .silent, 0⟩
    ∃ i, (Instance.create (some callsWithBadAddress) none .standard).setup = .ok i ∧
      i.isSetUp = true ∧ i.Accepted lookup ∧ host.console.failure = none ∧
      ∀ r1, ClosedResult (i.execute lookup host r1).result :=
  ⟨_, rfl, rfl, ⟨callsWithBadAddress, rfl, rfl⟩, rfl,
    (Instance.closed_fault_set _ true _ rfl ⟨callsWithBadAddress, rfl, rfl⟩ rfl).1⟩

end BytecodeVm
