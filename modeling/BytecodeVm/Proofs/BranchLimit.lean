import BytecodeVm.Proofs.BranchAccounting
import BytecodeVm.Proofs.Machines

/-! The branch limit is seen by the jump that exceeds it and by nothing else. Two runs that differ
in their budgets take the same steps as long as both can pay for their jumps. A limit is therefore
enough for a run or it is not, and all limits that are enough give the same run. -/
namespace BytecodeVm

theorem BranchBudget.Tally.unique {b : BranchBudget} {limit limit' : UInt32} {taken taken' : Nat}
    (h : b.Tally limit taken) (h' : b.Tally limit' taken') : taken = taken' :=
  h.consumed.symm.trans h'.consumed

namespace Step

def budget : Step → BranchBudget
  | .next s | .done _ s => s.budget

def withBudget (b : BranchBudget) : Step → Step
  | .next s => .next { s with budget := b }
  | .done outcome s => .done outcome { s with budget := b }

end Step

namespace Cpu

variable {p : Program} {s : Cpu} {b : BranchBudget} {low high : UInt32} {taken taken' : Nat}

theorem withCell_budget (r : Register) {next next' : Cell → Step}
    (rest : ∀ c, next' c = (next c).withBudget b) :
    { s with budget := b }.withCell r next' = (s.withCell r next).withBudget b := by
  unfold withCell
  split
  · exact rest _
  · rfl

theorem withOperand_budget (i : Instruction) (source : Source) {next next' : UInt64 → Step}
    (rest : ∀ v, next' v = (next v).withBudget b) :
    { s with budget := b }.withOperand i source next' =
      (s.withOperand i source next).withBudget b := by
  cases source with
  | immediate => exact rest _
  | register => exact withCell_budget i.src fun c => rest _

theorem land_budget (slot : Int) :
    { s with budget := b }.land slot = (s.land slot).withBudget b := by
  unfold land
  split <;> rfl

theorem budget_land (slot : Int) : (s.land slot).budget = s.budget := by
  unfold land
  split <;> rfl

theorem step_budget_of_stays (stays : s.takesJump p = false) (b : BranchBudget) :
    { s with budget := b }.step p = (s.step p).withBudget b := by
  unfold step
  dsimp only
  cases met : p.code[s.pc]? with
  | none => rfl
  | some i =>
    dsimp only
    unfold execute
    cases kind : i.kind with
    | alu width op source =>
      refine withCell_budget i.dst fun dst => withOperand_budget i source fun src => ?_
      dsimp only
      split <;> rfl
    | unknownAlu | unknownJump =>
      exact withCell_budget i.dst fun _ => withOperand_budget i _ fun _ => rfl
    | jump c source =>
      have same : ({ s with budget := b } : Cpu).operand? i source = s.operand? i source := rfl
      rw [takesJump_of_jump met kind] at stays
      simp only [stepJump, withCell, withOperand_eq, same]
      cases dst : i.dst.cell? with
      | none => rfl
      | some d =>
        cases src : s.operand? i source with
        | none => rfl
        | some v =>
          simp only [dst, src] at stays
          simp only [stays]
          rfl
    | call =>
      dsimp only [stepCall]
      cases p.lookup i.uimm with
      | none => rfl
      | some handler =>
        dsimp only [arguments]
        split <;> rfl
    | wide base =>
      dsimp only [stepWide]
      split
      · rfl
      · exact withCell_budget i.dst fun _ => rfl
    | load size =>
      refine withCell_budget i.src fun src => ?_
      dsimp only
      split
      · rfl
      · split
        · exact withCell_budget i.dst fun _ => rfl
        · rfl
    | storeImmediate size | storeRegister size =>
      refine withCell_budget i.dst fun dst => ?_
      dsimp only
      split
      · rfl
      · refine withOperand_budget i _ fun v => ?_
        split <;> rfl
    | exit | undefined => rfl

theorem budget_step_of_stays (stays : s.takesJump p = false) : (s.step p).budget = s.budget := by
  cases step : s.step p with
  | next s' => exact budget_of_next stays step
  | done outcome t => exact budget_of_done stays step

theorem tally_step (own : s.budget.Tally low taken) :
    ∃ taken', taken ≤ taken' ∧ (s.step p).budget.Tally low taken' := by
  cases jumps : s.takesJump p with
  | false =>
    rw [budget_step_of_stays jumps]
    exact ⟨taken, Nat.le_refl _, own⟩
  | true =>
    obtain ⟨i, -, -, jump⟩ := step_of_takesJump jumps
    rw [jump]
    cases paid : s.budget.consume with
    | none => exact ⟨taken, Nat.le_refl _, own⟩
    | some budget =>
      dsimp only
      rw [budget_land]
      exact ⟨taken + 1, Nat.le_succ _, own.consume paid⟩

theorem tally_run (own : s.budget.Tally low taken) :
    ∃ taken', taken ≤ taken' ∧ (s.run p).2.budget.Tally low taken' := by
  induction s using run.induct p generalizing taken with
  | case1 s outcome t ends =>
    have last := tally_step (p := p) own
    rw [ends] at last
    rw [run_of_done ends]
    exact last
  | case2 s next goes ih =>
    obtain ⟨mid, fewer, tally⟩ := tally_step (p := p) own
    rw [goes] at tally
    obtain ⟨taken', more, final⟩ := ih tally
    rw [run_of_next goes]
    exact ⟨taken', Nat.le_trans fewer more, final⟩

theorem step_budget (own : s.budget.Tally low taken) (other : b.Tally high taken)
    (goes : ∀ pc t, s.step p ≠ .done (.failed pc (.outOfBranches low)) t)
    (after : (s.step p).budget.Tally low taken') (room : taken' ≤ high.toNat) :
    ∃ b' : BranchBudget, b'.Tally high taken' ∧
      { s with budget := b }.step p = (s.step p).withBudget b' := by
  cases jumps : s.takesJump p with
  | false =>
    rw [budget_step_of_stays jumps] at after
    obtain rfl := own.unique after
    exact ⟨b, other, step_budget_of_stays jumps b⟩
  | true =>
    have jumps' : ({ s with budget := b } : Cpu).takesJump p = true := jumps
    obtain ⟨i, met, -, jump⟩ := step_of_takesJump jumps
    obtain ⟨i', met', -, jump'⟩ := step_of_takesJump jumps'
    obtain rfl : i = i' := Option.some.inj (met.symm.trans met')
    cases paid : s.budget.consume with
    | none =>
      rw [paid, own.limit] at jump
      exact absurd jump (goes _ _)
    | some budget =>
      rw [paid] at jump
      dsimp only at jump jump'
      rw [jump, budget_land] at after
      obtain rfl := (own.consume paid).unique after
      cases paid' : b.consume with
      | none =>
        have full := other.exhausted paid'
        omega
      | some b' =>
        rw [paid'] at jump'
        refine ⟨b', other.consume paid', ?_⟩
        rw [jump, jump', ← land_budget]

/-- A run that does not run out of branches is the same with other counters that can pay for all
of its jumps. -/
theorem run_budget (own : s.budget.Tally low taken) (other : b.Tally high taken)
    (goes : ∀ pc, (s.run p).1 ≠ .failed pc (.outOfBranches low))
    (final : (s.run p).2.budget.Tally low taken') (room : taken' ≤ high.toNat) :
    ∃ b' : BranchBudget, b'.Tally high taken' ∧
      { s with budget := b }.run p = ((s.run p).1, { (s.run p).2 with budget := b' }) := by
  -- along the run of the first state; the second takes the same steps
  induction s using run.induct p generalizing b taken with
  | case1 s outcome t ends =>
    rw [run_of_done ends] at goes final ⊢
    have stays : ∀ pc u, s.step p ≠ .done (.failed pc (.outOfBranches low)) u := by
      intro pc u out
      cases ends.symm.trans out
      exact goes pc rfl
    have after : (s.step p).budget.Tally low taken' := by
      rw [ends]
      exact final
    obtain ⟨b', tally, step⟩ := step_budget own other stays after room
    rw [ends] at step
    exact ⟨b', tally, run_of_done step⟩
  | case2 s next steps ih =>
    rw [run_of_next steps] at goes final ⊢
    obtain ⟨mid, -, after⟩ := tally_step (p := p) own
    have inside : next.budget.Tally low mid := by
      rw [steps] at after
      exact after
    obtain ⟨last, more, ended⟩ := tally_run (p := p) inside
    obtain rfl := ended.unique final
    have stays : ∀ pc u, s.step p ≠ .done (.failed pc (.outOfBranches low)) u := by
      intro pc u out
      cases steps.symm.trans out
    obtain ⟨b', tally, step⟩ := step_budget own other stays after (Nat.le_trans more room)
    rw [steps] at step
    rw [run_of_next step]
    exact ih inside tally goes final

end Cpu

namespace Instance

variable {i j : Instance} {lookup : Lookup} {host : Surroundings} {r1 : UInt64}

def withLimit (i : Instance) (limit : UInt32) : Instance :=
  { i with config.branchLimit := limit, budget := .ofLimit limit }

theorem create_withLimit (image : Option Container) (stack : Option Bytes)
    (config : InstanceConfig) {limit : UInt32} (positive : limit ≠ 0) :
    create image stack { config with branchLimit := limit } =
      (create image stack config).withLimit limit := by
  simp only [create, withLimit, InstanceConfig.normalized, if_neg positive]

theorem setup_withLimit (i : Instance) (limit : UInt32) :
    (i.withLimit limit).setup = i.setup.map (·.withLimit limit) := by
  unfold setup withLimit
  dsimp only
  split
  · rfl
  · split <;> rfl

theorem setup_create_withLimit {image : Option Container} {stack : Option Bytes}
    {config : InstanceConfig} {limit : UInt32} (up : (create image stack config).setup = .ok i)
    (positive : limit ≠ 0) :
    (create image stack { config with branchLimit := limit }).setup = .ok (i.withLimit limit) := by
  rw [create_withLimit image stack config positive, setup_withLimit, up]
  rfl

theorem verify_withLimit (i : Instance) (limit : UInt32) (lookup : Lookup) :
    (i.withLimit limit).verify lookup = (i.verify lookup).map (·.withLimit limit) := by
  unfold verify withLimit
  dsimp only
  split
  · rfl
  · split
    · rfl
    · split <;> rfl

theorem mapArgument_withLimit (i : Instance) (limit : UInt32) (bytes : Bytes) :
    (i.withLimit limit).mapArgument bytes = (i.mapArgument bytes).withLimit limit := by
  unfold mapArgument withLimit
  dsimp only
  split <;> rfl

theorem openArgument_withLimit (i : Instance) (limit : UInt32) :
    (i.withLimit limit).openArgument = i.openArgument.withLimit limit := by
  unfold openArgument withLimit
  dsimp only
  split <;> rfl

theorem budget_mapArgument (i : Instance) (bytes : Bytes) :
    (i.mapArgument bytes).budget = i.budget := by
  obtain ⟨body, kept⟩ := exists_body_mapArgument i bytes
  rw [kept]

/-- Instances that differ in their limits only, and in what remains of them. -/
structure EqualUpToLimit (i j : Instance) : Prop where
  image : j.image = i.image
  body : j.body = i.body
  state : j.state = i.state
  verified : j.verified = i.verified
  consumed : j.budget.consumed = i.budget.consumed

theorem EqualUpToLimit.withWorld (h : i.EqualUpToLimit j) (w : World) :
    (i.withWorld w).EqualUpToLimit (j.withWorld w) := by
  obtain ⟨image, body, state, verified, consumed⟩ := h
  unfold Instance.withWorld
  rw [body]
  split
  · exact ⟨image, body, state, verified, consumed⟩
  · exact ⟨image, rfl, state, verified, consumed⟩

theorem EqualUpToLimit.mapArgument (h : i.EqualUpToLimit j) (bytes : Bytes) :
    (i.mapArgument bytes).EqualUpToLimit (j.mapArgument bytes) := by
  obtain ⟨image, body, state, verified, consumed⟩ := h
  unfold Instance.mapArgument
  rw [body]
  split
  · exact ⟨image, body, state, verified, consumed⟩
  · exact ⟨image, rfl, state, verified, consumed⟩

theorem run_withLimit (i : Instance) (lookup : Lookup) (host : Surroundings) (r1 : UInt64) :
    (∃ e, ∀ limit, (i.withLimit limit).run lookup host r1 =
        (.error e, { i.withLimit limit with state := .faulted }, host)) ∨
      ∃ text, ∀ limit, (i.withLimit limit).run lookup host r1 =
        let ended := { i.boot host r1 with budget := .ofLimit limit }.run (.ofText text lookup)
        { i.withLimit limit with state := .running, verified := true }.settle ended.1 ended.2 := by
  cases verified : i.verify lookup with
  | error e =>
    refine .inl ⟨e, fun limit => run_of_rejected ?_⟩
    rw [verify_withLimit, verified]
    rfl
  | ok _ =>
    have passed := (verify_eq_ok_iff.mp verified).1
    rcases Option.eq_none_or_eq_some i.image with missing | ⟨image, loaded⟩
    · exact .inl ⟨.notSetUp, fun limit => run_of_missing missing⟩
    · exact .inr ⟨image.text, fun limit => run_of_passed loaded passed⟩

theorem consumed_run_le (i : Instance) (limit : UInt32) (lookup : Lookup) (host : Surroundings)
    (r1 : UInt64) :
    ((i.withLimit limit).run lookup host r1).2.1.budget.consumed ≤ limit := by
  rcases run_withLimit i lookup host r1 with ⟨e, refused⟩ | ⟨text, ran⟩
  · rw [refused]
    exact UInt32.le_iff_toNat_le.mpr (Nat.zero_le _)
  · rw [ran, settle_eq]
    have own : ({ i.boot host r1 with budget := .ofLimit limit } : Cpu).budget.Tally limit 0 :=
      BranchBudget.tally_ofLimit limit
    obtain ⟨taken, -, final⟩ := Cpu.tally_run (p := .ofText text lookup) own
    have within := final.le
    rw [← final.consumed] at within
    exact UInt32.le_iff_toNat_le.mpr within

theorem run_withLimit_same {low high : UInt32}
    (goes : ∀ pc, ((i.withLimit low).run lookup host r1).1 ≠
      .error (.stopped pc (.outOfBranches low)))
    (room : ((i.withLimit low).run lookup host r1).2.1.budget.consumed ≤ high) :
    let ended := (i.withLimit low).run lookup host r1
    let ended' := (i.withLimit high).run lookup host r1
    ended'.1 = ended.1 ∧ ended.2.1.EqualUpToLimit ended'.2.1 ∧ ended'.2.2 = ended.2.2 := by
  rcases run_withLimit i lookup host r1 with ⟨e, refused⟩ | ⟨text, ran⟩
  · rw [refused, refused]
    exact ⟨rfl, ⟨rfl, rfl, rfl, rfl, rfl⟩, rfl⟩
  · rw [ran, settle_eq] at goes room
    rw [ran, ran, settle_eq, settle_eq]
    dsimp only at goes room ⊢
    generalize start : ({ i.boot host r1 with budget := .ofLimit low } : Cpu) = s at goes room ⊢
    have own : s.budget.Tally low 0 := start ▸ BranchBudget.tally_ofLimit low
    obtain ⟨taken, -, final⟩ := Cpu.tally_run (p := .ofText text lookup) own
    have stays : ∀ pc, (s.run (.ofText text lookup)).1 ≠ .failed pc (.outOfBranches low) := by
      intro pc out
      exact goes pc (by rw [out]; rfl)
    rw [UInt32.le_iff_toNat_le, final.consumed] at room
    obtain ⟨b, tally, same⟩ :=
      Cpu.run_budget own (BranchBudget.tally_ofLimit high) stays final room
    have other : ({ i.boot host r1 with budget := .ofLimit high } : Cpu) =
        { s with budget := .ofLimit high } := by
      rw [← start]
    rw [other, same]
    have counted : b.consumed = (s.run (.ofText text lookup)).2.budget.consumed :=
      UInt32.toNat_inj.mp (tally.consumed.trans final.consumed.symm)
    have alike : EqualUpToLimit { i.withLimit low with state := .running, verified := true }
        { i.withLimit high with state := .running, verified := true } :=
      ⟨rfl, rfl, rfl, rfl, rfl⟩
    have worlds := alike.withWorld (s.run (.ofText text lookup)).2.world
    exact ⟨rfl, ⟨worlds.image, worlds.body, rfl, worlds.verified, counted⟩, rfl⟩

end Instance

def Execution.RunsOut (e : Execution) (limit : UInt32) : Prop :=
  ∃ pc, e.result = .error (.stopped pc (.outOfBranches limit))

/-- Calls that cannot be told apart, but for the limits. -/
structure Execution.Same (e e' : Execution) : Prop where
  result : e'.result = e.result
  inst : e.inst.EqualUpToLimit e'.inst
  host : e'.host = e.host
  argument : e'.argument = e.argument

namespace MachineCall

variable {i : Instance} {lookup : Lookup} {host : Surroundings} {call : MachineCall}

theorem consumed_execution_le (call : MachineCall) (i : Instance) (limit : UInt32)
    (lookup : Lookup) (host : Surroundings) :
    (call.execution (i.withLimit limit) lookup host).inst.budget.consumed ≤ limit := by
  cases up : i.isSetUp with
  | false =>
    have down : (i.withLimit limit).isSetUp = false := up
    rcases call with r1 | _ | argument <;>
      simp only [execution, Instance.execute_of_idle down, Instance.executeContext_of_idle down] <;>
      exact UInt32.le_iff_toNat_le.mpr (Nat.zero_le _)
  | true =>
    have live : (i.withLimit limit).isSetUp = true := up
    rcases call with r1 | _ | argument <;>
      simp only [execution, Instance.execute_of_setUp live, Instance.executeContext_of_setUp live,
        Instance.mapArgument_withLimit, Instance.openArgument_withLimit,
        Instance.budget_mapArgument] <;>
      exact Instance.consumed_run_le _ limit lookup host _

theorem execution_withLimit_same {low high : UInt32}
    (goes : ¬ (call.execution (i.withLimit low) lookup host).RunsOut low)
    (room : (call.execution (i.withLimit low) lookup host).inst.budget.consumed ≤ high) :
    (call.execution (i.withLimit low) lookup host).Same
      (call.execution (i.withLimit high) lookup host) := by
  cases up : i.isSetUp with
  | false =>
    have down (limit : UInt32) : (i.withLimit limit).isSetUp = false := up
    rcases call with r1 | _ | argument <;>
      simp only [execution, Instance.execute_of_idle (down _),
        Instance.executeContext_of_idle (down _)] <;>
      exact ⟨rfl, ⟨rfl, rfl, rfl, rfl, rfl⟩, rfl, rfl⟩
  | true =>
    have live (limit : UInt32) : (i.withLimit limit).isSetUp = true := up
    rcases call with r1 | _ | argument
    case context.some =>
      simp only [execution, Instance.executeContext_of_setUp (live _),
        Instance.mapArgument_withLimit, Instance.openArgument_withLimit,
        Instance.budget_mapArgument, Execution.RunsOut, not_exists] at goes room ⊢
      obtain ⟨result, equal, host'⟩ := Instance.run_withLimit_same goes room
      refine ⟨result, equal.mapArgument _, host', ?_⟩
      simp only [Instance.memory, equal.body]
    all_goals
      simp only [execution, Instance.execute_of_setUp (live _), Instance.mapArgument_withLimit,
        Execution.RunsOut, not_exists] at goes room ⊢
      obtain ⟨result, equal, host'⟩ := Instance.run_withLimit_same goes room
      exact ⟨result, equal, host', rfl⟩

end MachineCall

/-- The branch limit is unobservable but for the want of a branch. A call that does not run out
under one limit is the same call under every larger one. It needs as many branches as it consumes:
under any limit from there on it is the same call, and under any lower one it runs out. -/
theorem Instance.branch_limit_unobservable (i : Instance) (lookup : Lookup) (host : Surroundings)
    (call : MachineCall) :
    let under := fun limit => call.execution (i.withLimit limit) lookup host
    (∀ low high, low ≤ high → ¬ (under low).RunsOut low → (under low).Same (under high)) ∧
      ∀ limit, ¬ (under limit).RunsOut limit →
        let needed := (under limit).inst.budget.consumed
        (∀ other, needed ≤ other → (under limit).Same (under other)) ∧
          ∀ other, other < needed → (under other).RunsOut other := by
  intro under
  have within (limit : UInt32) : (under limit).inst.budget.consumed ≤ limit :=
    call.consumed_execution_le i limit lookup host
  have same {low high : UInt32} (goes : ¬ (under low).RunsOut low)
      (room : (under low).inst.budget.consumed ≤ high) : (under low).Same (under high) :=
    MachineCall.execution_withLimit_same goes room
  refine ⟨fun low high larger goes => same goes (UInt32.le_trans (within low) larger), ?_⟩
  intro limit goes needed
  refine ⟨fun other room => same goes room, fun other short => ?_⟩
  -- if the lower limit were enough, the call would consume no more than that under any limit
  refine Classical.byContradiction fun enough => ?_
  have lower : other ≤ limit := UInt32.le_of_lt (UInt32.lt_of_lt_of_le short (within limit))
  have equal : needed = (under other).inst.budget.consumed :=
    (same enough (UInt32.le_trans (within other) lower)).inst.consumed
  rw [equal] at short
  exact UInt32.not_lt.mpr (within other) short

/-- Jumps to the next slot, twice. -/
def twoHops : Container :=
  .ofWords [0x0000000000000005, 0x0000000000000005, 0x0000000000000095]

def hopping : Instance :=
  let i := Instance.create (some twoHops) none .standard
  { i with
    body := .live (.fresh i.stack (Instance.initialData twoHops) twoHops.rodata)
      (.inMemory i.config.localCapacity) }

theorem run_twoHops (s : Cpu) :
    { s with pc := 0, budget := ⟨2, 2, 0⟩ }.run (.ofText twoHops.text noSyscalls) =
      (.halted (s.registers.get .result), { s with pc := 2, budget := ⟨2, 0, 2⟩ }) := by
  let p := Program.ofText twoHops.text noSyscalls
  have hop : p.code[0]? = some ⟨5, 0, 0, 0, 0⟩ ∧ p.code[1]? = some ⟨5, 0, 0, 0, 0⟩ ∧
      p.code[2]? = some ⟨0x95, 0, 0, 0, 0⟩ := ⟨rfl, rfl, rfl⟩
  have first : ({ s with pc := 0, budget := ⟨2, 2, 0⟩ } : Cpu).step p =
      .next { s with pc := 1, budget := ⟨2, 1, 1⟩ } := by
    rw [Cpu.step, hop.1]
    with_unfolding_all rfl
  have second : ({ s with pc := 1, budget := ⟨2, 1, 1⟩ } : Cpu).step p =
      .next { s with pc := 2, budget := ⟨2, 0, 2⟩ } := by
    rw [Cpu.step, hop.2.1]
    with_unfolding_all rfl
  have last : ({ s with pc := 2, budget := ⟨2, 0, 2⟩ } : Cpu).step p =
      .done (.halted (s.registers.get .result)) { s with pc := 2, budget := ⟨2, 0, 2⟩ } := by
    rw [Cpu.step, hop.2.2]
    rfl
  rw [Cpu.run_of_next first, Cpu.run_of_next second, Cpu.run_of_done last]

theorem branch_limit_of_twoHops :
    let config := { InstanceConfig.standard with branchLimit := 2 }
    let host : Surroundings := ⟨.inMemory 16, .silent, 0⟩
    let under := fun limit =>
      (MachineCall.value 0).execution (hopping.withLimit limit) noSyscalls host
    (Instance.create (some twoHops) none config).setup = .ok (hopping.withLimit 2) ∧
      (under 2).result = .ok 0 ∧ (under 2).inst.budget.consumed = 2 ∧
      (under 2).Same (under 200) ∧ (under 1).RunsOut 1 := by
  intro config host under
  have call : under 2 = _ := Instance.execute_of_setUp (i := hopping.withLimit 2) rfl
  have halts : (((hopping.withLimit 2).mapArgument (Bytes.zeros 0)).boot host 0).run
      (.ofText twoHops.text noSyscalls) =
        (.halted 0, { hopping.boot host 0 with pc := 2, budget := ⟨2, 0, 2⟩ }) :=
    run_twoHops (hopping.boot host 0)
  have ended : ((hopping.withLimit 2).mapArgument (Bytes.zeros 0)).run noSyscalls host 0 = _ :=
    Instance.run_of_passed rfl (.inr ⟨twoHops, rfl, rfl⟩)
  rw [halts, Instance.settle_eq] at ended
  have answer : (under 2).result = .ok 0 := by
    rw [call]
    exact congrArg Prod.fst ended
  have needed : (under 2).inst.budget.consumed = 2 := by
    rw [call]
    exact congrArg (·.2.1.budget.consumed) ended
  have enough : ¬ (under 2).RunsOut 2 := by
    rintro ⟨pc, out⟩
    cases answer.symm.trans out
  obtain ⟨larger, threshold⟩ :=
    Instance.branch_limit_unobservable hopping noSyscalls host (.value 0)
  refine ⟨Instance.setup_create_withLimit rfl (by decide), answer, needed,
    larger 2 200 (by decide) enough, (threshold 2 enough).2 1 ?_⟩
  rw [needed]
  decide

end BytecodeVm
