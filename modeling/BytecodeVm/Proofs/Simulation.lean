import BytecodeVm.Proofs.Steps

/-! Two runs side by side. Where worlds that are related load the same values and stay related under
writes and calls, programs started in them take the same steps and end the same way. One lemma for
each kind of step, and then by induction on the first run. -/
namespace BytecodeVm

/-- Programs that call functions of the given lookup cannot tell related worlds apart. -/
structure World.Bisimulation (lookup : Lookup) (R : World → World → Prop) : Prop where
  load : ∀ {w w' : World}, R w w' → ∀ (addr : UInt64) (size : Nat),
    w.memory.load addr size = w'.memory.load addr size
  write : ∀ {w w' : World}, R w w' → ∀ (addr : UInt64) (bytes : Bytes),
    (∃ e, w.memory.write addr bytes = .error e ∧ w'.memory.write addr bytes = .error e) ∨
      ∃ u u', w.memory.write addr bytes = .ok u ∧ w'.memory.write addr bytes = .ok u' ∧
        R { w with memory := u } { w' with memory := u' }
  call : ∀ {code : UInt32} {handler : Handler}, lookup code = some handler →
    ∀ {w w' : World}, R w w' → ∀ a : Arguments,
      (handler w a).1 = (handler w' a).1 ∧ R (handler w a).2 (handler w' a).2

/-- The same step, up to worlds that are related. -/
inductive Step.Related (R : World → World → Prop) : Step → Step → Prop
  | next {s : Cpu} {w : World} (h : R s.world w) :
      Related R (.next s) (.next { s with world := w })
  | done {s : Cpu} {w : World} (outcome : Outcome) (h : R s.world w) :
      Related R (.done outcome s) (.done outcome { s with world := w })

namespace Cpu

variable {lookup : Lookup} {R : World → World → Prop}

section

variable {s : Cpu} {w : World} (h : R s.world w)

include h

theorem related_fail (e : StepError) : (s.fail e).Related R ({ s with world := w }.fail e) :=
  .done _ h

theorem related_withCell (r : Register) {next next' : Cell → Step}
    (rest : ∀ c, (next c).Related R (next' c)) :
    (s.withCell r next).Related R ({ s with world := w }.withCell r next') := by
  unfold withCell
  split
  · exact rest _
  · exact related_fail h _

theorem related_withOperand (i : Instruction) (source : Source) {next next' : UInt64 → Step}
    (rest : ∀ v, (next v).Related R (next' v)) :
    (s.withOperand i source next).Related R ({ s with world := w }.withOperand i source next') := by
  cases source with
  | immediate => exact rest _
  | register => exact related_withCell h i.src fun c => rest _

theorem related_stepAlu (i : Instruction) (width : AluWidth) (op : AluOp) (source : Source) :
    (s.stepAlu i width op source).Related R ({ s with world := w }.stepAlu i width op source) := by
  refine related_withCell h i.dst fun dst => related_withOperand h i source fun src => ?_
  dsimp only
  split
  · exact .next h
  · exact related_fail h _

theorem related_stepUnknown (i : Instruction) (e : StepError) :
    (s.stepUnknown i e).Related R ({ s with world := w }.stepUnknown i e) :=
  related_withCell h i.dst fun _ => related_withOperand h i _ fun _ => related_fail h e

theorem related_stepJump (i : Instruction) (c : Condition) (source : Source) :
    (s.stepJump i c source).Related R ({ s with world := w }.stepJump i c source) := by
  refine related_withCell h i.dst fun dst => related_withOperand h i source fun src => ?_
  dsimp only
  split
  · split
    · exact related_fail h _
    · unfold land
      dsimp only
      split
      · exact .done _ h
      · exact .next h
  · exact .next h

theorem related_stepWide (base : WideBase) (low : Instruction) (high : Option Instruction) :
    (s.stepWide base low high).Related R ({ s with world := w }.stepWide base low high) := by
  cases high with
  | none => exact related_fail h _
  | some high => exact related_withCell h low.dst fun dst => .next h

variable (sim : World.Bisimulation lookup R)

include sim

theorem related_stepLoad (i : Instruction) (size : AccessSize) :
    (s.stepLoad i size).Related R ({ s with world := w }.stepLoad i size) := by
  refine related_withCell h i.src fun src => ?_
  dsimp only
  split
  · exact related_fail h _
  · rw [sim.load h]
    split
    · exact related_withCell h i.dst fun dst => .next h
    · exact related_fail h _

theorem related_stepStore (i : Instruction) (size : AccessSize) (source : Source) :
    (s.stepStore i size source).Related R ({ s with world := w }.stepStore i size source) := by
  refine related_withCell h i.dst fun dst => ?_
  dsimp only
  split
  · exact related_fail h _
  · rename_i addr _
    refine related_withOperand h i source fun v => ?_
    dsimp only [RegionTable.store]
    rcases sim.write h addr (Bytes.ofList (LittleEndian.ofNat size.bytes v.toNat)) with
      ⟨e, refused, refused'⟩ | ⟨u, u', written, written', related⟩
    · rw [refused, refused']
      exact related_fail h _
    · rw [written, written']
      exact .next (w := { w with memory := u' }) related

theorem related_stepCall (i : Instruction) :
    (s.stepCall lookup i).Related R ({ s with world := w }.stepCall lookup i) := by
  unfold stepCall
  cases found : lookup i.uimm with
  | none => exact related_fail h _
  | some handler =>
    have same := sim.call found h s.arguments
    have args : ({ s with world := w } : Cpu).arguments = s.arguments := rfl
    dsimp only
    rw [args]
    generalize handler s.world s.arguments = answer at same ⊢
    generalize handler w s.arguments = answer' at same ⊢
    obtain ⟨reply, world⟩ := answer
    obtain ⟨reply', world'⟩ := answer'
    obtain ⟨rfl, related⟩ := same
    have next : R ({ s with world := world } : Cpu).world world' := related
    cases reply with
    | value v => exact .next next
    | error e => exact related_fail next _
    | panic text => exact related_fail next _

end

theorem related_step {p : Program} (sim : World.Bisimulation p.lookup R) {s : Cpu} {w : World}
    (h : R s.world w) : (s.step p).Related R ({ s with world := w }.step p) := by
  unfold step
  dsimp only
  split
  · exact .done _ h
  · rename_i i _
    unfold execute
    cases i.kind with
    | alu width op source => exact related_stepAlu h i width op source
    | unknownAlu => exact related_stepUnknown h i _
    | jump c source => exact related_stepJump h i c source
    | unknownJump => exact related_stepUnknown h i _
    | call => exact related_stepCall h sim i
    | exit => exact .done _ h
    | wide base => exact related_stepWide h base i _
    | load size => exact related_stepLoad h sim i size
    | storeImmediate size => exact related_stepStore h sim i size .immediate
    | storeRegister size => exact related_stepStore h sim i size .register
    | undefined => exact related_fail h _

theorem related_run {p : Program} (sim : World.Bisimulation p.lookup R) (s : Cpu) {w : World}
    (h : R s.world w) :
    ∃ w', { s with world := w }.run p = ((s.run p).1, { (s.run p).2 with world := w' }) ∧
      R (s.run p).2.world w' := by
  -- along the run of the first state; the second takes the same steps
  induction s using run.induct p generalizing w with
  | case1 s outcome t ends =>
    have same := related_step sim h
    rw [ends] at same
    generalize other : { s with world := w }.step p = step' at same
    cases same with
    | done _ related =>
      rw [run_of_done ends, run_of_done other]
      exact ⟨_, rfl, related⟩
  | case2 s next goes ih =>
    have same := related_step sim h
    rw [goes] at same
    generalize other : { s with world := w }.step p = step' at same
    cases same with
    | next related =>
      rw [run_of_next goes, run_of_next other]
      exact ih related

end Cpu

end BytecodeVm
