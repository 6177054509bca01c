import BytecodeVm.Proofs.Builtins
import BytecodeVm.Proofs.ControlFlow
import BytecodeVm.Proofs.Machines

/-! Result codes. After a call a machine has no error exactly when the program ran to its end, and
then the answer is what the program left in its result register. The code of an error is zero only
if a host function passed on a fault with that code; the verifier and the processor never do. -/
namespace BytecodeVm

theorem RunError.code_eq_zero_iff (e : RunError) : e.code = 0 ↔ e.fault? = some .ok := by
  rw [code_eq, fault?]
  cases e.cause with
  | none => decide
  | some cause =>
    cases cause with
    | fault f =>
      obtain ⟨code⟩ := f
      simp [Cause.fault?, Fault.ok]
    | notProvisioned => decide

theorem VerifyError.fault_ne_ok (e : VerifyError) : e.fault ≠ .ok := by
  cases e <;> (intro same; cases same)

/-! ## Runs of an instance -/

namespace Instance

variable {i : Instance} {lookup : Lookup} {host : Surroundings} {r1 : UInt64}

def Halts (i : Instance) (lookup : Lookup) (host : Surroundings) (r1 : UInt64) (r0 : Int64) :
    Prop :=
  ∃ image word s, i.image = some image ∧ (i.verified = true ∨ i.Accepted lookup) ∧
    (i.boot host r1).run (.ofText image.text lookup) = (.halted word, s) ∧ word.toInt64 = r0

/-- The processor comes to a call, in the given slot, whose function passes on a fault with code
zero. -/
inductive RaisesOk (i : Instance) (lookup : Lookup) (host : Surroundings) (r1 : UInt64) :
    Nat → CallError → Prop
  | called {image : Container} {n : Nat} {s : Cpu} {ins : Instruction} {handler : Handler}
      {e : CallError} (loaded : i.image = some image)
      (steps : Cpu.Steps (.ofText image.text lookup) (i.boot host r1) n s)
      (met : (Program.ofText image.text lookup).code[s.pc]? = some ins) (kind : ins.kind = .call)
      (found : lookup ins.uimm = some handler)
      (answer : (handler s.world s.arguments).1 = .error e) (zero : e.fault? = some .ok) :
      RaisesOk i lookup host r1 s.pc e

theorem run_eq_ok_iff (r0 : Int64) :
    (i.run lookup host r1).1 = .ok r0 ↔ i.Halts lookup host r1 r0 := by
  constructor
  · intro answered
    rcases run_cases i lookup host r1 with
      ⟨e, refused⟩ | ⟨image, outcome, s, loaded, passed, ran, h⟩
    · rw [refused] at answered
      cases answered
    · rw [h, settle_eq] at answered
      cases outcome with
      | failed pc e => cases answered
      | halted word =>
        cases answered
        exact ⟨image, word, s, loaded, passed, ran, rfl⟩
  · rintro ⟨image, word, s, loaded, passed, ran, rfl⟩
    rw [run_of_passed loaded passed, settle_eq, ran]
    rfl

theorem fault_of_verify {e : RunError} (rejected : i.verify lookup = .error e) :
    e.fault? ≠ some .ok := by
  unfold verify at rejected
  split at rejected
  · cases rejected
  · split at rejected
    · cases rejected
      nofun
    · split at rejected <;> cases rejected
      rename_i e _
      exact fun zero => e.fault_ne_ok (Option.some.inj zero)

theorem raisesOk_of_stops {p : Program} {s t : Cpu} {ins : Instruction} {pc : Nat} {e : StepError}
    (stops : Cpu.Stops p s ins (.failed pc e) t) (zero : e.fault? = some .ok) :
    s.pc = pc ∧ ins.kind = .call ∧ ∃ handler call, p.lookup ins.uimm = some handler ∧
      (handler s.world s.arguments).1 = .error call ∧ e = .call call := by
  cases stops with
  | callFailed kind found answer =>
    exact ⟨rfl, kind, _, _, found, congrArg Prod.fst answer, rfl⟩
  | divided | unknownOperation | unknownOpcode | wrapped | refused | exhausted | unknownCall =>
    cases zero
  | callPanicked | noRegister | noSlot | noSecondWord => cases zero

theorem raisesOk_of_run {e : RunError} (failed : (i.run lookup host r1).1 = .error e)
    (zero : e.fault? = some .ok) :
    ∃ pc call, e = .stopped pc (.call call) ∧ i.RaisesOk lookup host r1 pc call := by
  cases verified : i.verify lookup with
  | error e' =>
    rw [run_of_rejected verified] at failed
    cases failed
    exact absurd zero (fault_of_verify verified)
  | ok j =>
    rcases Option.eq_none_or_eq_some i.image with missing | ⟨image, loaded⟩
    · rw [run_of_missing missing] at failed
      cases failed
      cases zero
    · rw [run_of_passed loaded (verify_eq_ok_iff.mp verified).1, settle_eq] at failed
      obtain ⟨pc, e', outcome, rfl⟩ := Outcome.failed_of_result failed
      obtain ⟨n, s, steps, last⟩ :=
        Cpu.exists_steps_run (.ofText image.text lookup) (i.boot host r1)
      rw [outcome] at last
      rcases Cpu.stops_of_step last with ⟨-, halted, -⟩ | ⟨ins, met, stops⟩
      · cases halted
      · obtain ⟨rfl, kind, handler, call, found, answer, rfl⟩ := raisesOk_of_stops stops zero
        exact ⟨_, call, rfl, .called loaded steps met kind found answer zero⟩

end Instance

/-! ## Calls of a machine -/

namespace Machine

def Halts (m : Machine) (shared : Store) (call : MachineCall) (r0 : Int64) : Prop :=
  ∃ i, m.inst = some i ∧ i.isSetUp = true ∧
    (call.prepare i).Halts m.registry.lookup (m.surroundings shared) call.register r0

def RaisesOk (m : Machine) (shared : Store) (call : MachineCall) (pc : Nat) (e : CallError) :
    Prop :=
  ∃ i, m.inst = some i ∧
    (call.prepare i).RaisesOk m.registry.lookup (m.surroundings shared) call.register pc e

section

variable {m : Machine} {shared : Store}

theorem RaisesOk.fault {call : MachineCall} {pc : Nat} {e : CallError}
    (h : m.RaisesOk shared call pc e) : e.fault? = some .ok := by
  obtain ⟨i, -, raises⟩ := h
  cases raises with
  | called _ _ _ _ _ _ zero => exact zero

theorem lastError_finish_eq_none_iff (e : Execution) :
    (m.finish shared e).machine.lastError = none ↔ e.result = .ok (m.finish shared e).result := by
  unfold finish
  cases e.result <;> simp

theorem lastError_finish_eq_some {e : Execution} {err : RunError}
    (h : (m.finish shared e).machine.lastError = some err) : e.result = .error err := by
  unfold finish at h
  cases ended : e.result with
  | ok r0 => simp [ended] at h
  | error err' =>
    simp only [ended, Option.some.injEq] at h
    rw [h]

theorem lastError_eq_none_iff (call : MachineCall) :
    (call.perform m shared).machine.lastError = none ↔
      m.Halts shared call (call.perform m shared).result := by
  rcases Option.eq_none_or_eq_some m.inst with unloaded | ⟨i, loaded⟩
  · rw [MachineCall.perform_of_unloaded unloaded]
    constructor
    · nofun
    · rintro ⟨i, loaded, -⟩
      cases unloaded.symm.trans loaded
  · rw [MachineCall.perform_of_loaded loaded, lastError_finish_eq_none_iff]
    constructor
    · intro answered
      cases up : i.isSetUp with
      | false =>
        rw [MachineCall.result_of_idle up] at answered
        cases answered
      | true =>
        rw [MachineCall.result_of_setUp up] at answered
        exact ⟨i, loaded, up, (Instance.run_eq_ok_iff _).mp answered⟩
    · rintro ⟨j, loaded', up, halts⟩
      cases loaded.symm.trans loaded'
      rw [MachineCall.result_of_setUp up]
      exact (Instance.run_eq_ok_iff _).mpr halts

theorem perform_of_failed (shared : Store) (call : MachineCall) {i : Instance} {image : Container}
    {pc : Nat} {e : StepError} {s : Cpu} (loaded : m.inst = some i) (up : i.isSetUp = true)
    (found : (call.prepare i).image = some image)
    (accepted : (call.prepare i).Accepted m.registry.lookup)
    (ran : ((call.prepare i).boot (m.surroundings shared) call.register).run
      (.ofText image.text m.registry.lookup) = (.failed pc e, s)) :
    (call.perform m shared).result = failedResult ∧
      (call.perform m shared).machine.lastError = some (.stopped pc e) := by
  have ended : (call.execution i m.registry.lookup (m.surroundings shared)).result =
      .error (.stopped pc e) := by
    rw [MachineCall.result_of_setUp up, Instance.run_of_passed found (.inr accepted),
      Instance.settle_eq, ran]
    rfl
  rw [MachineCall.perform_of_loaded loaded]
  simp only [finish, ended, and_self]

theorem raisesOk_of_lastError {call : MachineCall} {e : RunError}
    (failed : (call.perform m shared).machine.lastError = some e) (zero : e.fault? = some .ok) :
    ∃ pc err, e = .stopped pc (.call err) ∧ m.RaisesOk shared call pc err := by
  rcases Option.eq_none_or_eq_some m.inst with unloaded | ⟨i, loaded⟩
  · rw [MachineCall.perform_of_unloaded unloaded] at failed
    cases failed
    cases zero
  · rw [MachineCall.perform_of_loaded loaded] at failed
    have ended := lastError_finish_eq_some failed
    cases up : i.isSetUp with
    | false =>
      rw [MachineCall.result_of_idle up] at ended
      cases ended
      cases zero
    | true =>
      rw [MachineCall.result_of_setUp up] at ended
      obtain ⟨pc, err, same, raises⟩ := Instance.raisesOk_of_run ended zero
      exact ⟨pc, err, same, i, loaded, raises⟩

end

theorem lastCode_eq_zero_iff (m : Machine) :
    m.lastCode = 0 ↔ m.lastError = none ∨ ∃ e, m.lastError = some e ∧ e.fault? = some .ok := by
  unfold lastCode
  cases m.lastError with
  | none => simp
  | some e => simp [e.code_eq_zero_iff]

end Machine

/-! ## Host functions that raise no fault with code zero -/

def Console.Candid (c : Console) : Prop := ∀ e, c.failure = some e → e.fault? ≠ some .ok

/-- No error of the function has the code zero, as long as none of the console has; and the console
stays as it is in that respect. -/
def Candid (handler : Handler) : Prop :=
  ∀ (w : World) (a : Arguments), w.host.console.Candid →
    (∀ e, (handler w a).1 = .error e → e.fault? ≠ some .ok) ∧ (handler w a).2.host.console.Candid

theorem Console.Candid.write {c c' : Console} (h : c.Candid) {bytes : List UInt8}
    (written : c.write bytes = .ok c') : c'.Candid := by
  unfold Console.write at written
  split at written <;> cases written
  exact h

theorem Console.Candid.refused {c : Console} (h : c.Candid) {bytes : List UInt8} {e : HostError}
    (refused : c.write bytes = .error e) : e.fault? ≠ some .ok := by
  unfold Console.write at refused
  split at refused <;> cases refused
  exact h e ‹_›

theorem Registry.candid_standard (hashing : Bool) {code : UInt32} {handler : Handler}
    (found : (Registry.standard hashing).lookup code = some handler) : Candid handler := by
  intro w a candid
  have effect := Registry.effect_standard found w a
  generalize handler w a = answer at effect ⊢
  cases effect with
  | rejected => exact ⟨nofun, candid⟩
  | answered _ console => exact ⟨nofun, console ▸ candid⟩
  | printed written => exact ⟨nofun, candid.write written⟩
  | unprinted refused =>
    refine ⟨fun e failed => ?_, candid⟩
    cases failed
    exact candid.refused refused

theorem Machine.not_raisesOk {m : Machine}
    (candid : ∀ code handler, m.registry.lookup code = some handler → Candid handler)
    (console : m.console.Candid) {shared : Store} {call : MachineCall} {pc : Nat} {e : CallError} :
    ¬ m.RaisesOk shared call pc e := by
  rintro ⟨i, -, raises⟩
  cases raises with
  | called _ steps _ _ found answer zero =>
    have still := steps.world (R := fun w w' => w.host.console.Candid → w'.host.console.Candid)
      (fun _ => id) (fun _ _ known w a before => (candid _ _ known w a before).2)
      (fun _ _ _ _ _ _ before => before) (fun _ _ _ h h' before => h' (h before)) console
    exact (candid _ _ found _ _ still).1 e answer zero

/-- Whatever the machine went through before a call: it has no error afterwards exactly when the
program came to its end, and then its answer is the program's. The result code is zero in that case
and when a host function passed on a fault with that code, and in no other; so it tells the two
apart wherever no function does that, as the built-in ones never do. -/
theorem Machine.result_code_faithful (m : Machine) (shared : Store) (call : MachineCall) :
    let after := call.perform m shared
    (after.machine.lastError = none ↔ m.Halts shared call after.result) ∧
      (after.machine.lastCode = 0 ↔ m.Halts shared call after.result ∨
        ∃ pc e, after.machine.lastError = some (.stopped pc (.call e)) ∧
          m.RaisesOk shared call pc e) ∧
      ((∀ code handler, m.registry.lookup code = some handler → Candid handler) →
        m.console.Candid → (after.machine.lastCode = 0 ↔ m.Halts shared call after.result)) := by
  intro after
  have ended : after.machine.lastError = none ↔ m.Halts shared call after.result :=
    lastError_eq_none_iff call
  have zero : after.machine.lastCode = 0 ↔ m.Halts shared call after.result ∨
      ∃ pc e, after.machine.lastError = some (.stopped pc (.call e)) ∧
        m.RaisesOk shared call pc e := by
    rw [lastCode_eq_zero_iff, ended]
    refine or_congr_right ⟨?_, ?_⟩
    · rintro ⟨e, failed, none⟩
      obtain ⟨pc, err, rfl, raises⟩ := raisesOk_of_lastError failed none
      exact ⟨pc, err, failed, raises⟩
    · rintro ⟨pc, err, failed, raises⟩
      exact ⟨_, failed, raises.fault⟩
  refine ⟨ended, zero, fun candid console => zero.trans (or_iff_left ?_)⟩
  rintro ⟨pc, e, -, raises⟩
  exact not_raisesOk candid console raises

theorem Cpu.run_of_execute {p : Program} {s t : Cpu} {i : Instruction} {outcome : Outcome}
    (met : p.code[s.pc]? = some i) (last : s.execute p i = .done outcome t) :
    s.run p = (outcome, t) :=
  run_of_done (by rw [step, met]; exact last)

def dividesByZero : Container := .ofWords [0x0000000000000037, 0x0000000000000095]

theorem result_code_of_dividesByZero :
    let m := ((Machine.create .standard (.standard true) none).load (some dividesByZero) 512).2
    let after := (MachineCall.value 0).perform m (.inMemory 16)
    (∀ code handler, m.registry.lookup code = some handler → Candid handler) ∧
      m.console.Candid ∧ after.machine.lastCode = -9 ∧
      ¬ m.Halts (.inMemory 16) (.value 0) after.result := by
  intro m after
  have candid : ∀ code handler, m.registry.lookup code = some handler → Candid handler :=
    fun _ _ found => Registry.candid_standard true found
  have console : m.console.Candid := fun e failed => by cases failed
  have failed : after.machine.lastError =
      some (.stopped 0 (.operation .illegalDivision (Text.fetch dividesByZero.text 0))) :=
    (Machine.perform_of_failed (m := m) (.inMemory 16) (.value 0) rfl rfl rfl
      ⟨dividesByZero, rfl, rfl⟩
      (Cpu.run_of_execute (i := Text.fetch dividesByZero.text 0) rfl rfl)).2
  have code : after.machine.lastCode = -9 := by
    rw [Machine.lastCode, failed]
    rfl
  refine ⟨candid, console, code, fun halts => ?_⟩
  have faithful := (Machine.result_code_faithful m (.inMemory 16) (.value 0)).2.2 candid console
  cases code.symm.trans (faithful.mpr halts)

def callsProbe : Container := .ofWords [0x0000004000000085, 0x0000000000000095]

def withProbe : Registry :=
  ((Registry.standard true).register 0x40 "probe"
    (some fun w _ => (.error (.host ⟨"probe", some (.fault .ok)⟩), w))).toOption.getD
      (.standard true)

/-- The run fails, and its result code is that of success. -/
theorem failed_run_reports_ok :
    let m := ((Machine.create .standard withProbe none).load (some callsProbe) 512).2
    let after := m.executeValue (.inMemory 16) 0
    after.result = Machine.failedResult ∧ after.machine.lastError ≠ none ∧
      after.machine.lastCode = 0 ∧ ResultCode.name after.machine.lastCode = "OK" := by
  intro m after
  obtain ⟨answer, failed⟩ := Machine.perform_of_failed (m := m) (.inMemory 16) (.value 0)
    rfl rfl rfl ⟨callsProbe, rfl, rfl⟩
    (Cpu.run_of_execute (i := Text.fetch callsProbe.text 0) rfl rfl)
  have code : after.machine.lastCode = 0 := by
    rw [Machine.lastCode, show after.machine.lastError = _ from failed]
    rfl
  refine ⟨answer, fun none => ?_, code, ?_⟩
  · cases none.symm.trans failed
  · rw [code]
    rfl

end BytecodeVm
