import BytecodeVm.Proofs.ControlFlow

/-! Branch accounting: a run ends after a bounded number of instructions, its counters say at every
moment how many jumps were taken, and it runs out of branches at the first jump past the limit.
Whether a jump is taken is read off the registers, away from the counters. -/
namespace BytecodeVm

namespace BranchBudget

/-- The counters of a budget with the given limit after so many taken jumps. -/
structure Tally (b : BranchBudget) (limit : UInt32) (taken : Nat) : Prop where
  consumed : b.consumed.toNat = taken
  balance : b.consumed.toNat + b.remaining.toNat = limit.toNat
  limit : b.limit = limit

variable {b b' : BranchBudget} {limit : UInt32} {taken : Nat}

theorem tally_ofLimit (limit : UInt32) : (ofLimit limit).Tally limit 0 :=
  ⟨rfl, Nat.zero_add _, rfl⟩

theorem Tally.le (h : b.Tally limit taken) : taken ≤ limit.toNat := by
  have consumed := h.consumed
  have balance := h.balance
  omega

theorem consume_eq_none_iff : b.consume = none ↔ b.remaining = 0 := by
  simp [consume]

theorem Tally.consume (h : b.Tally limit taken) (paid : b.consume = some b') :
    b'.Tally limit (taken + 1) := by
  have less := remaining_of_consume paid
  obtain ⟨same, more⟩ := consume_eq_some paid
  have consumed := h.consumed
  have balance := h.balance
  have bound := limit.toNat_lt
  -- one more branch cannot carry the counter past the limit
  have counted : b'.consumed.toNat = b.consumed.toNat + 1 := by
    rw [more, UInt32.toNat_add, UInt32.toNat_one, Nat.mod_eq_of_lt (by omega)]
  exact ⟨by omega, by omega, same.trans h.limit⟩

theorem Tally.eq_of_full (h : b.Tally limit limit.toNat) : b = ⟨limit, 0, limit⟩ := by
  have consumed : b.consumed = limit := UInt32.toNat_inj.mp h.consumed
  have remaining : b.remaining = 0 := by
    have balance := h.balance
    rw [consumed] at balance
    exact UInt32.toNat_inj.mp (by rw [UInt32.toNat_zero]; omega)
  cases b
  obtain ⟨-, -, rfl⟩ := h
  simp_all

theorem Tally.exhausted (h : b.Tally limit taken) (empty : b.consume = none) :
    taken = limit.toNat := by
  have consumed := h.consumed
  have balance := h.balance
  rw [consume_eq_none_iff.mp empty, UInt32.toNat_zero] at balance
  omega

end BranchBudget

namespace Cpu

def operand? (s : Cpu) (i : Instruction) : Source → Option UInt64
  | .immediate => some i.operand
  | .register => i.src.cell?.map s.registers.get

def takesJump (p : Program) (s : Cpu) : Bool :=
  match p.code[s.pc]? with
  | none => false
  | some i =>
    match i.kind with
    | .jump c source =>
      match i.dst.cell?, s.operand? i source with
      | some dst, some v => c.holds (s.registers.get dst) v
      | _, _ => false
    | _ => false

def trace (p : Program) (s : Cpu) : List Cpu :=
  match p.code[s.pc]? with
  | none => []
  | some _ =>
    match _h : s.step p with
    | .done _ _ => [s]
    | .next s' => s :: trace p s'
termination_by s.distance p
decreasing_by exact distance_lt_of_step _h

section

variable {p : Program} {s s' t : Cpu} {i : Instruction} {outcome : Outcome}

theorem trace_of_past (past : p.code[s.pc]? = none) : s.trace p = [] := by
  rw [trace, past]

theorem trace_of_done (met : p.code[s.pc]? = some i) (step : s.step p = .done outcome t) :
    s.trace p = [s] := by
  rw [trace, met]
  dsimp only
  split
  · rfl
  · rename_i step'
    cases step.symm.trans step'

theorem trace_of_next (step : s.step p = .next s') : s.trace p = s :: s'.trace p := by
  obtain ⟨i, met, -⟩ := moves_of_step step
  rw [trace, met]
  dsimp only
  split
  · rename_i step'
    cases step.symm.trans step'
  · rename_i step'
    cases step.symm.trans step'
    rfl

/-- A run that has made `n` steps has carried out `n` instructions and has those to come that a run
from where it stands would carry out. -/
theorem Steps.trace_eq {n : Nat} (steps : Steps p s n t) :
    ∃ before, s.trace p = before ++ t.trace p ∧ before.length = n := by
  induction steps with
  | zero => exact ⟨[], rfl, rfl⟩
  | @succ n t _ _ step ih =>
    obtain ⟨before, split, count⟩ := ih
    refine ⟨before ++ [t], ?_, ?_⟩
    · rw [split, trace_of_next step, List.append_assoc, List.singleton_append]
    · rw [List.length_append, count, List.length_singleton]

theorem length_trace_le (p : Program) (s : Cpu) : (s.trace p).length ≤ s.distance p := by
  induction s using run.induct p with
  | case1 s outcome t ends =>
    cases met : p.code[s.pc]? with
    | none => simp [trace_of_past met]
    | some i =>
      have inside := (Array.getElem?_eq_some_iff.mp met).1
      rw [trace_of_done met ends, List.length_singleton, distance]
      omega
  | case2 s next goes ih =>
    have closer := distance_lt_of_step goes
    rw [trace_of_next goes, List.length_cons]
    omega

end

section

variable {p : Program} {s s' t : Cpu} {i : Instruction} {c : Condition} {source : Source}
  {outcome : Outcome}

theorem takesJump_of_jump (met : p.code[s.pc]? = some i) (kind : i.kind = .jump c source) :
    s.takesJump p = match i.dst.cell?, s.operand? i source with
      | some dst, some v => c.holds (s.registers.get dst) v
      | _, _ => false := by
  simp only [takesJump, met, kind]

theorem withOperand_eq (s : Cpu) (i : Instruction) (source : Source) (next : UInt64 → Step) :
    s.withOperand i source next = match s.operand? i source with
      | some v => next v
      | none => s.fail (.trap (.register i.src)) := by
  cases source with
  | immediate => rfl
  | register =>
    simp only [withOperand, withCell, operand?]
    cases i.src.cell? <;> rfl

theorem step_of_takesJump (taken : s.takesJump p = true) :
    ∃ i, p.code[s.pc]? = some i ∧ i.namesTarget = true ∧
      s.step p = match s.budget.consume with
        | none => s.fail (.outOfBranches s.budget.limit)
        | some budget => { s with budget := budget }.land (s.pc + i.offset.toInt + 1) := by
  cases met : p.code[s.pc]? with
  | none => simp [takesJump, met] at taken
  | some i =>
    cases kind : i.kind with
    | jump c source =>
      refine ⟨i, rfl, namesTarget_of_jump kind, ?_⟩
      rw [takesJump_of_jump met kind] at taken
      cases dst : i.dst.cell? with
      | none => simp [dst] at taken
      | some d =>
        cases src : s.operand? i source with
        | none => simp [dst, src] at taken
        | some v =>
          simp only [dst, src] at taken
          simp only [step, met, execute, kind, stepJump, withCell, dst, withOperand_eq, src]
          exact if_pos taken
    | _ => simp [takesJump, met, kind] at taken

theorem step_of_jump_not_taken (met : p.code[s.pc]? = some i) (kind : i.kind = .jump c source)
    (stays : s.takesJump p = false) :
    s.step p = .next { s with pc := s.pc + 1 } ∨ ∃ r, s.step p = s.fail (.trap (.register r)) := by
  rw [takesJump_of_jump met kind] at stays
  simp only [step, met, execute, kind, stepJump, withCell, withOperand_eq]
  cases dst : i.dst.cell? with
  | none => exact .inr ⟨_, rfl⟩
  | some d =>
    cases src : s.operand? i source with
    | none => exact .inr ⟨_, rfl⟩
    | some v =>
      simp only [dst, src] at stays
      simp only [stays]
      exact .inl rfl

theorem done_of_jump_not_taken (met : p.code[s.pc]? = some i) (kind : i.kind = .jump c source)
    (stays : s.takesJump p = false) (step : s.step p = .done outcome t) :
    ∃ r, outcome = .failed s.pc (.trap (.register r)) := by
  rcases step_of_jump_not_taken met kind stays with next | ⟨r, fails⟩
  · cases step.symm.trans next
  · have same := step.symm.trans fails
    injection same with same
    exact ⟨r, same⟩

theorem budget_of_next (stays : s.takesJump p = false) (step : s.step p = .next s') :
    s'.budget = s.budget := by
  obtain ⟨i, met, moves⟩ := moves_of_step step
  cases moves with
  | jumped kind paid inside =>
    rcases step_of_jump_not_taken met kind stays with next | ⟨r, fails⟩
    · have same := step.symm.trans next
      injection same with same
      injection same
    · cases step.symm.trans fails
  | computed | loaded | loadedWide | stored | called | passed => rfl

theorem budget_of_done (stays : s.takesJump p = false) (step : s.step p = .done outcome t) :
    t.budget = s.budget := by
  rcases stops_of_step step with ⟨-, -, rfl⟩ | ⟨i, met, stops⟩
  · rfl
  · cases stops with
    | noSlot kind paid outside =>
      obtain ⟨r, other⟩ := done_of_jump_not_taken met kind stays step
      cases other
    | _ => rfl

theorem fault_of_done {pc : Nat} {e : StepError} (stays : s.takesJump p = false)
    (step : s.step p = .done (.failed pc e) t) (fault : e.fault? = some .outOfBranches) :
    ∃ own, e = .call own := by
  rcases stops_of_step step with ⟨-, impossible, -⟩ | ⟨i, met, stops⟩
  · cases impossible
  · cases stops with
    | callFailed | unknownCall => exact ⟨_, rfl⟩
    | exhausted kind empty =>
      obtain ⟨r, other⟩ := done_of_jump_not_taken met kind stays step
      cases other
    | callPanicked | noRegister | noSlot | noSecondWord => cases fault
    | divided | unknownOperation | unknownOpcode | wrapped | refused =>
      exact absurd (Option.some.inj fault) (by decide)

end

theorem Steps.tally {p : Program} {start s : Cpu} {n : Nat} {limit : UInt32}
    (entry : start.budget.Tally limit 0) (steps : Steps p start n s) :
    s.budget.Tally limit (((start.trace p).take n).countP (takesJump p)) := by
  induction steps with
  | zero => simpa using entry
  | @succ n s s' steps step ih =>
    obtain ⟨before, split, count⟩ := steps.trace_eq
    rw [trace_of_next step] at split
    have now : (start.trace p).take n = before := by
      rw [split, List.take_left' count]
    have later : (start.trace p).take (n + 1) = before ++ [s] := by
      rw [split, List.append_cons, List.take_left' (by simp [count])]
    rw [now] at ih
    rw [later, List.countP_append, List.countP_singleton]
    cases taken : s.takesJump p with
    | false =>
      rw [budget_of_next taken step]
      simpa using ih
    | true =>
      obtain ⟨i, -, -, jump⟩ := step_of_takesJump taken
      rw [step] at jump
      split at jump
      · cases jump
      · rename_i budget paid
        unfold land at jump
        split at jump
        · cases jump
        · cases jump
          simpa using ih.consume paid

theorem countP_trace_of_done {p : Program} {s t : Cpu} {outcome : Outcome}
    (step : s.step p = .done outcome t) :
    (s.trace p).countP (takesJump p) = if s.takesJump p then 1 else 0 := by
  cases met : p.code[s.pc]? with
  | none => simp [trace_of_past met, takesJump, met]
  | some i => rw [trace_of_done met step, List.countP_singleton]

/-- A run ends for want of a branch at the first jump past the limit. Any other end leaves the
counters as the taken jumps make them, and has that fault only from a host function. -/
theorem Steps.tally_of_done {text : Bytes} {lookup : Lookup} {openEnd : Bool}
    (accepted : Verifier.verify (fun code => (lookup code).isSome) openEnd text = .ok ())
    {start s t : Cpu} {n : Nat} {limit : UInt32} {outcome : Outcome} (entry : start.pc = 0)
    (budget : start.budget.Tally limit 0) (steps : Steps (.ofText text lookup) start n s)
    (last : s.step (.ofText text lookup) = .done outcome t) :
    let p := Program.ofText text lookup
    let taken := (start.trace p).countP (takesJump p)
    (outcome = .failed s.pc (.outOfBranches limit) ∧ taken = limit.toNat + 1 ∧
        t.budget.Tally limit limit.toNat) ∨
      t.budget.Tally limit taken ∧ ∀ pc e, outcome = .failed pc e →
        e.fault? = some .outOfBranches → ∃ own, e = .call own := by
  intro p taken
  have tally := steps.tally budget
  obtain ⟨before, split, count⟩ := steps.trace_eq
  rw [split, List.take_left' count] at tally
  have total : taken = before.countP (takesJump p) + if s.takesJump p then 1 else 0 := by
    rw [← countP_trace_of_done last, ← List.countP_append, ← split]
  cases jumps : s.takesJump p with
  | false =>
    rw [jumps] at total
    rw [total, budget_of_done jumps last]
    refine .inr ⟨tally, ?_⟩
    rintro pc e rfl fault
    exact fault_of_done jumps last fault
  | true =>
    obtain ⟨i, met, names, jump⟩ := step_of_takesJump jumps
    rw [last] at jump
    rw [jumps] at total
    split at jump
    · rename_i empty
      cases jump
      have full := tally.exhausted empty
      rw [full] at tally total
      rw [tally.limit]
      exact .inl ⟨rfl, total, tally⟩
    · -- verification has made sure that a taken jump lands in the text
      obtain ⟨scanned, -⟩ := scans_of_steps accepted entry steps
      rw [getElem?_ofText] at met
      have target := (Verifier.sound_of_verify accepted scanned met).target names
      unfold land at jump
      split at jump
      · omega
      · cases jump

end Cpu

namespace Instance

theorem length_trace_boot_le (i : Instance) (text : Bytes) (lookup : Lookup) (host : Surroundings)
    (r1 : UInt64) :
    ((i.boot host r1).trace (.ofText text lookup)).length ≤
      (i.budget.limit.toNat + 1) * Text.slots text := by
  calc ((i.boot host r1).trace (.ofText text lookup)).length
    _ ≤ (i.boot host r1).distance (.ofText text lookup) := Cpu.length_trace_le _ _
    _ = (i.budget.limit.toNat + 1) * Text.slots text := by
      simp [Cpu.distance, boot, BranchBudget.reset, BranchBudget.ofLimit, Program.ofText,
        Text.instructions, Nat.add_mul]

/-- A run of an accepted text carries out at most `(limit + 1) * slots` instructions. All the while
its counters add up to the limit and show the number of jumps taken so far. It runs out of branches
exactly if one jump more than the limit is taken; a fault of that code that is not the budget's can
only be a host function's own. -/
theorem branch_accounting (i : Instance) (image : Container) (lookup : Lookup)
    (host : Surroundings) (r1 : UInt64) (loaded : i.image = some image)
    (accepted : Verifier.verify (fun code => (lookup code).isSome) i.config.noReturn image.text =
      .ok ()) :
    let p := Program.ofText image.text lookup
    let trace := (i.boot host r1).trace p
    let taken := trace.countP (Cpu.takesJump p)
    let limit := i.budget.limit
    let ended := i.run lookup host r1
    trace.length ≤ (limit.toNat + 1) * Text.slots image.text ∧
      (∀ n s, Cpu.Steps p (i.boot host r1) n s → trace.drop n = s.trace p ∧
        s.budget.Tally limit ((trace.take n).countP (Cpu.takesJump p))) ∧
      ended.2.1.budget.Tally limit (min taken limit.toNat) ∧
      ((∃ pc, ended.1 = .error (.stopped pc (.outOfBranches limit))) ↔ taken = limit.toNat + 1) ∧
      (taken = limit.toNat + 1 → ended.2.1.budget = ⟨limit, 0, limit⟩) ∧
      ∀ e, ended.1 = .error e → e.fault? = some .outOfBranches →
        taken = limit.toNat + 1 ∨ ∃ pc own, e = .stopped pc (.call own) := by
  intro p trace taken limit ended
  have entry : (i.boot host r1).budget.Tally limit 0 := BranchBudget.tally_ofLimit limit
  obtain ⟨n, s, steps, last⟩ := Cpu.exists_steps_run p (i.boot host r1)
  have ends := steps.tally_of_done accepted rfl entry last
  have answer : ended.1 = ((i.boot host r1).run p).1.result := by
    simp only [ended, run_of_accepted loaded accepted, settle_eq, p]
  have counters : ended.2.1.budget = ((i.boot host r1).run p).2.budget := by
    simp only [ended, run_of_accepted loaded accepted, settle_eq, p]
  rw [answer, counters]
  refine ⟨i.length_trace_boot_le _ _ _ _, fun n s steps => ⟨?_, steps.tally entry⟩, ?_⟩
  · obtain ⟨before, split, count⟩ := steps.trace_eq
    rw [show trace = before ++ s.trace p from split, List.drop_left' count]
  generalize (i.boot host r1).run p = stopped at ends last ⊢
  obtain ⟨outcome, t⟩ := stopped
  rcases ends with ⟨out, count, full⟩ | ⟨tally, other⟩
  · dsimp only at out full ⊢
    subst out
    change taken = limit.toNat + 1 at count
    refine ⟨?_, ⟨fun _ => count, fun _ => ⟨s.pc, rfl⟩⟩, fun _ => full.eq_of_full,
      fun _ _ _ => .inl count⟩
    rwa [count, Nat.min_eq_right (Nat.le_succ _)]
  · change t.budget.Tally limit taken at tally
    have within := tally.le
    refine ⟨?_, ⟨?_, fun past => ?_⟩, fun past => ?_, ?_⟩
    · rwa [Nat.min_eq_left within]
    · rintro ⟨pc, failed⟩
      obtain ⟨pc', e', rfl, same⟩ := Outcome.failed_of_result failed
      cases same
      obtain ⟨own, impossible⟩ := other _ _ rfl rfl
      cases impossible
    · omega
    · omega
    · intro e failed fault
      obtain ⟨pc, e', rfl, rfl⟩ := Outcome.failed_of_result failed
      obtain ⟨own, rfl⟩ := other _ _ rfl fault
      exact .inr ⟨pc, own, rfl⟩

end Instance

/-- A jump to itself between a move and an exit that it never reaches. -/
def selfLoop : Container :=
  .ofWords [0x00000000000000b7, 0x00000000ffff0005, 0x0000000000000095]

theorem branch_accounting_of_selfLoop :
    let lookup : Lookup := noSyscalls
    let i := Instance.create (some selfLoop) none { InstanceConfig.standard with branchLimit := 3 }
    let host : Surroundings := ⟨.inMemory 16, .silent, 0⟩
    let p := Program.ofText selfLoop.text lookup
    Verifier.verify (fun code => (lookup code).isSome) i.config.noReturn selfLoop.text = .ok () ∧
      ((i.boot host 0).trace p).length ≤ (3 + 1) * 3 ∧
      ((∃ pc, (i.run lookup host 0).1 = .error (.stopped pc (.outOfBranches 3))) ↔
        ((i.boot host 0).trace p).countP (Cpu.takesJump p) = 3 + 1) := by
  have accounts := Instance.branch_accounting
    (.create (some selfLoop) none { InstanceConfig.standard with branchLimit := 3 }) selfLoop
    noSyscalls ⟨.inMemory 16, .silent, 0⟩ 0 rfl rfl
  exact ⟨rfl, accounts.1, accounts.2.2.2.1⟩

end BytecodeVm
