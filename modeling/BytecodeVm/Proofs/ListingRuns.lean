import BytecodeVm.Proofs.ControlFlow
import BytecodeVm.Proofs.ListingLines

/-! The listing of a text determines how it runs. Two instructions that share a line take the same
step, but for the instruction that an error keeps, which shows in its wording only. So two accepted
texts with one listing go through the same states, and no caller can tell their executions apart. -/
namespace BytecodeVm

open LinearScan

namespace Text

section

variable {code code' : List Instruction} {pc q : Nat} {i : Instruction}

theorem lines_drop (met : code[pc]? = some i) :
    lines (code.drop pc) =
      .ofInstruction i code[pc + 1]? :: lines (code.drop (pc + i.width)) := by
  obtain ⟨inside, rfl⟩ := List.getElem?_eq_some_iff.mp met
  have width : pc + 1 + (code[pc].width - 1) = pc + code[pc].width := by
    unfold Instruction.width
    split <;> omega
  rw [List.drop_eq_getElem_cons inside, lines, List.head?_drop, List.drop_drop, width]

theorem getElem?_eq_none_of_lines (same : lines (code.drop pc) = lines (code'.drop pc))
    (past : code[pc]? = none) : code'[pc]? = none := by
  rw [List.drop_eq_nil_of_le (List.getElem?_eq_none_iff.mp past), lines] at same
  cases met : code'[pc]? with
  | none => rfl
  | some j =>
    rw [lines_drop met] at same
    cases same

theorem getElem?_of_lines (same : lines (code.drop pc) = lines (code'.drop pc))
    (met : code[pc]? = some i) :
    ∃ j, code'[pc]? = some j ∧
      Line.ofInstruction i code[pc + 1]? = Line.ofInstruction j code'[pc + 1]? ∧
      j.width = i.width ∧ lines (code.drop (pc + i.width)) = lines (code'.drop (pc + i.width)) := by
  cases met' : code'[pc]? with
  | none =>
    rw [getElem?_eq_none_of_lines same.symm met'] at met
    cases met
  | some j =>
    rw [lines_drop met, lines_drop met', List.cons.injEq] at same
    have width : j.width = i.width := by
      rw [← Line.width_ofInstruction, ← same.1, Line.width_ofInstruction]
    exact ⟨j, rfl, same.1, width, width ▸ same.2⟩

theorem scans_of_lines (same : lines (code.drop pc) = lines (code'.drop pc))
    (scanned : Scans code pc q) :
    Scans code' pc q ∧ lines (code.drop q) = lines (code'.drop q) := by
  induction scanned with
  | here => exact ⟨.here _, same⟩
  | past met rest ih =>
    obtain ⟨j, met', -, width, behind⟩ := getElem?_of_lines same met
    obtain ⟨scanned, same⟩ := ih behind
    exact ⟨.past met' (width ▸ scanned), same⟩

end

end Text

def RunError.report (e : RunError) : Int × String := (e.code, e.message)

def RunError.reported (answer : Except RunError Int64) : Except (Int × String) Int64 :=
  answer.mapError RunError.report

/-- Steps into one state, which answer alike if they end the run. -/
inductive Step.Equivalent : Step → Step → Prop
  | next (s : Cpu) : Equivalent (.next s) (.next s)
  | done {outcome outcome' : Outcome} (s : Cpu)
      (same : RunError.reported outcome.result = RunError.reported outcome'.result) :
      Equivalent (.done outcome s) (.done outcome' s)

theorem Step.Equivalent.refl (step : Step) : step.Equivalent step := by
  cases step with
  | next s => exact .next s
  | done outcome s => exact .done s rfl

namespace Cpu

section

variable {s : Cpu} {i j : Instruction} {source : Source}

theorem equivalent_withCell (r : Register) {next next' : Cell → Step}
    (rest : ∀ c, (next c).Equivalent (next' c)) :
    (s.withCell r next).Equivalent (s.withCell r next') := by
  unfold withCell
  split
  · exact rest _
  · exact .refl _

theorem withCell_of_lt {r : Register} (inside : r.val < 11) (next : Cell → Step) :
    s.withCell r next = next ⟨r.val, inside⟩ := by
  simp [withCell, Register.cell?, inside]

theorem withOperand_of_second (same : i.second source = j.second source) (next : UInt64 → Step) :
    s.withOperand i source next = s.withOperand j source next := by
  cases source with
  | immediate =>
    have imm : i.imm = j.imm := Operand.immediate.inj same
    simp only [withOperand, Instruction.operand, imm]
  | register =>
    have src : i.src = j.src := Operand.register.inj same
    simp only [withOperand, src]

theorem equivalent_withOperand {next next' : UInt64 → Step}
    (rest : ∀ v, (next v).Equivalent (next' v)) :
    (s.withOperand i source next).Equivalent (s.withOperand i source next') := by
  cases source with
  | immediate => exact rest _
  | register => exact equivalent_withCell i.src fun _ => rest _

theorem equivalent_operation (f : Fault) (same : i.render = j.render) :
    (s.fail (.operation f i)).Equivalent (s.fail (.operation f j)) :=
  .done s (congrArg (fun text => Except.error (f.code, StepError.atPc f s.pc text)) same)

theorem equivalent_stepAlu {width : AluWidth} {op : AluOp} (kind : i.kind = .alu width op source)
    (kind' : j.kind = .alu width op source)
    (same : Line.ofAlu i width op source = Line.ofAlu j width op source) :
    (s.stepAlu i width op source).Equivalent (s.stepAlu j width op source) := by
  have texts : i.render = j.render := by
    rw [Line.render_of_alu kind, Line.render_of_alu kind', same]
  unfold Line.ofAlu at same
  by_cases negates : op = .neg
  · subst negates
    cases source with
    | immediate =>
      have dst : i.dst = j.dst := (Line.negate.inj same).2
      unfold stepAlu
      rw [dst]
      -- the result of a negation does not depend on its second operand
      exact equivalent_withCell j.dst fun c => .refl (s.assign c _)
    | register =>
      obtain rfl := Line.unknown.inj same
      exact .refl _
  · rw [if_neg negates, if_neg negates, Line.compute.injEq] at same
    obtain ⟨-, -, dst, second⟩ := same
    unfold stepAlu
    rw [dst]
    refine equivalent_withCell j.dst fun c => ?_
    rw [withOperand_of_second second]
    refine equivalent_withOperand fun v => ?_
    cases op.result width (s.registers.get c) v with
    | ok v => exact .refl _
    | error f => exact equivalent_operation f texts

theorem equivalent_stepJump {c : Condition} (cell : i.dst.val < 11) (cell' : j.dst.val < 11)
    (same : Line.ofJump i c source = Line.ofJump j c source) :
    (s.stepJump i c source).Equivalent (s.stepJump j c source) := by
  unfold Line.ofJump at same
  by_cases always : c = .always
  · subst always
    cases source with
    | immediate =>
      have offset : i.offset = j.offset := Line.jump.inj same
      unfold stepJump
      rw [withCell_of_lt cell, withCell_of_lt cell', offset]
      -- an unconditional jump reads its operands but does not look at them
      simp only [withOperand, Condition.holds, if_true]
      exact .refl _
    | register =>
      obtain rfl := Line.unknown.inj same
      exact .refl _
  · rw [if_neg always, if_neg always, Line.branch.injEq] at same
    obtain ⟨-, dst, second, offset⟩ := same
    unfold stepJump
    rw [dst, offset]
    refine equivalent_withCell j.dst fun cell => ?_
    rw [withOperand_of_second second]
    exact .refl _

theorem stepStore_of_second {size : AccessSize} (dst : i.dst = j.dst) (offset : i.offset = j.offset)
    (second : i.second source = j.second source) :
    s.stepStore i size source = s.stepStore j size source := by
  simp only [stepStore, dst, offset, withOperand_of_second second]

theorem equivalent_execute {p p' : Program} (lookup : p.lookup = p'.lookup)
    (cell : i.dst.val < 11) (cell' : j.dst.val < 11)
    (complete : i.isWide = true → p.code[s.pc + 1]?.isSome = true)
    (complete' : j.isWide = true → p'.code[s.pc + 1]?.isSome = true)
    (same : Line.ofInstruction i p.code[s.pc + 1]? = Line.ofInstruction j p'.code[s.pc + 1]?) :
    (s.execute p i).Equivalent (s.execute p' j) := by
  have kinds : j.kind = i.kind := by
    rw [← Line.kind_ofInstruction, ← same, Line.kind_ofInstruction]
  unfold execute
  unfold Line.ofInstruction at same
  rw [kinds] at same ⊢
  cases kind : i.kind with
  | alu width op source =>
    simp only [kind] at same
    exact equivalent_stepAlu kind (kinds.trans kind) same
  | jump c source =>
    simp only [kind] at same
    exact equivalent_stepJump cell cell' same
  | unknownAlu | unknownJump | undefined =>
    simp only [kind, Line.unknown.injEq] at same
    subst same
    exact .refl _
  | call =>
    simp only [kind, Line.call.injEq] at same
    simp only [stepCall, lookup, same]
    exact .refl _
  | exit => exact .refl _
  | wide base =>
    have wide : i.isWide = true := isWide_of_wide kind
    obtain ⟨high, second⟩ := Option.isSome_iff_exists.mp (complete wide)
    obtain ⟨high', second'⟩ :=
      Option.isSome_iff_exists.mp (complete' (isWide_of_wide (kinds.trans kind)))
    simp only [kind, second, second', Line.wide.injEq, true_and] at same
    simp only [stepWide, second, second', same]
    exact .refl _
  | load size =>
    simp only [kind, Line.load.injEq, true_and] at same
    obtain ⟨dst, src, offset⟩ := same
    simp only [stepLoad, dst, src, offset]
    exact .refl _
  | storeImmediate size | storeRegister size =>
    simp only [kind, Line.store.injEq, true_and] at same
    obtain ⟨dst, offset, second⟩ := same
    simp only [stepStore_of_second dst offset second]
    exact .refl _

end

section

variable {a b : Bytes} {lookup : Lookup} {openEnd : Bool}
  (accepted : Verifier.verify (fun code => (lookup code).isSome) openEnd a = .ok ())
  (accepted' : Verifier.verify (fun code => (lookup code).isSome) openEnd b = .ok ())
  (same : Text.lines (Text.instructions a) = Text.lines (Text.instructions b))

include accepted accepted' same

theorem equivalent_step {s : Cpu} (scanned : Scans (Text.instructions a) 0 s.pc) :
    (s.step (.ofText a lookup)).Equivalent (s.step (.ofText b lookup)) := by
  rw [← List.drop_zero (l := Text.instructions a), ← List.drop_zero (l := Text.instructions b)]
    at same
  obtain ⟨scanned', behind⟩ := Text.scans_of_lines same scanned
  unfold step
  simp only [getElem?_ofText]
  cases met : (Text.instructions a)[s.pc]? with
  | none =>
    rw [Text.getElem?_eq_none_of_lines behind met]
    exact .refl _
  | some i =>
    obtain ⟨j, met', line, -, -⟩ := Text.getElem?_of_lines behind met
    have sound := Verifier.sound_of_verify accepted scanned met
    have sound' := Verifier.sound_of_verify accepted' scanned' met'
    rw [met']
    refine equivalent_execute rfl sound.registers.1 sound'.registers.1 ?_ ?_ ?_
    · intro wide
      rw [getElem?_ofText, List.getElem?_eq_getElem (sound.complete wide), Option.isSome_some]
    · intro wide
      rw [getElem?_ofText, List.getElem?_eq_getElem (sound'.complete wide), Option.isSome_some]
    · rw [getElem?_ofText, getElem?_ofText]
      exact line

theorem equivalent_run {s : Cpu} (scanned : Scans (Text.instructions a) 0 s.pc) :
    RunError.reported (s.run (.ofText a lookup)).1.result =
        RunError.reported (s.run (.ofText b lookup)).1.result ∧
      (s.run (.ofText a lookup)).2 = (s.run (.ofText b lookup)).2 := by
  -- along the run of the first text, which stays on slots of the scan
  induction s using run.induct (.ofText a lookup) with
  | case1 s outcome t ends =>
    have step := equivalent_step accepted accepted' same scanned
    rw [ends] at step
    generalize other : s.step (.ofText b lookup) = step' at step
    cases step with
    | done _ alike =>
      rw [run_of_done ends, run_of_done other]
      exact ⟨alike, rfl⟩
  | case2 s next goes ih =>
    have step := equivalent_step accepted accepted' same scanned
    rw [goes] at step
    generalize other : s.step (.ofText b lookup) = step' at step
    cases step with
    | next =>
      rw [run_of_next goes, run_of_next other]
      exact ih (scans_of_step accepted scanned goes).1

end

end Cpu

theorem Outcome.state_of_reported {outcome outcome' : Outcome}
    (same : RunError.reported outcome.result = RunError.reported outcome'.result) :
    outcome.state = outcome'.state := by
  cases outcome with
  | halted r0 =>
    cases outcome' with
    | halted r0' => rfl
    | failed pc' e' => cases same
  | failed pc e =>
    cases outcome' with
    | halted r0' => cases same
    | failed pc' e' => rfl

structure Container.SameData (a b : Container) : Prop where
  mutableLen : a.header.mutableLen = b.header.mutableLen
  data : a.data = b.data
  rodata : a.rodata = b.rodata

def Instance.withImage (i : Instance) (c : Container) : Instance := { i with image := some c }

/-- Two executions show the same if they answer alike and leave the same behind, up to the image
of the second. -/
structure Execution.ShowsSame (b : Container) (e e' : Execution) : Prop where
  result : RunError.reported e'.result = RunError.reported e.result
  inst : e'.inst = e.inst.withImage b
  host : e'.host = e.host
  argument : e'.argument = e.argument

namespace Instance

theorem mapArgument_withImage (i : Instance) (c : Container) (bytes : Bytes) :
    (i.withImage c).mapArgument bytes = (i.mapArgument bytes).withImage c := by
  obtain ⟨_, _, body, _, _, _⟩ := i
  cases body <;> rfl

theorem openArgument_withImage (i : Instance) (c : Container) :
    (i.withImage c).openArgument = i.openArgument.withImage c := by
  obtain ⟨_, _, body, _, _, _⟩ := i
  cases body <;> rfl

theorem withWorld_withImage (i : Instance) (c : Container) (w : World) :
    (i.withImage c).withWorld w = (i.withWorld w).withImage c := by
  obtain ⟨_, _, body, _, _, _⟩ := i
  cases body <;> rfl

theorem setup_withImage {a b : Container} (data : a.SameData b) (i : Instance) :
    (i.withImage b).setup = ((i.withImage a).setup).map (·.withImage b) := by
  unfold setup withImage initialData
  simp only [data.mutableLen, data.data, data.rodata]
  split <;> rfl

section

variable {a b : Container} {lookup : Lookup} {i : Instance}
  (accepted : Verifier.verify (fun code => (lookup code).isSome) i.config.noReturn a.text = .ok ())
  (accepted' : Verifier.verify (fun code => (lookup code).isSome) i.config.noReturn b.text = .ok ())
  (same : Text.lines (Text.instructions a.text) = Text.lines (Text.instructions b.text))

include accepted accepted' same

theorem run_withImage (host : Surroundings) (r1 : UInt64) :
    let ended := (i.withImage a).run lookup host r1
    let ended' := (i.withImage b).run lookup host r1
    RunError.reported ended'.1 = RunError.reported ended.1 ∧
      ended'.2.1 = ended.2.1.withImage b ∧ ended'.2.2 = ended.2.2 := by
  obtain ⟨answers, states⟩ :=
    Cpu.equivalent_run accepted accepted' same (s := i.boot host r1) (.here 0)
  -- both runs start in one state, since booting does not look at the image
  have booted (c : Container) : (i.withImage c).boot host r1 = i.boot host r1 := rfl
  have readied (c : Container) : { i.withImage c with state := .running, verified := true } =
      { i with state := .running, verified := true }.withImage c := rfl
  dsimp only
  rw [run_of_accepted (i := i.withImage a) rfl accepted,
    run_of_accepted (i := i.withImage b) rfl accepted', settle_eq, settle_eq, booted, booted,
    ← states, ← Outcome.state_of_reported answers, readied, readied, withWorld_withImage,
    withWorld_withImage]
  exact ⟨answers.symm, rfl, rfl⟩

theorem execute_withImage (host : Surroundings) (r1 : UInt64) :
    Execution.ShowsSame b ((i.withImage a).execute lookup host r1)
      ((i.withImage b).execute lookup host r1) := by
  by_cases up : i.isSetUp = true
  · rw [execute_of_setUp (i := i.withImage a) up, execute_of_setUp (i := i.withImage b) up,
      mapArgument_withImage, mapArgument_withImage]
    obtain ⟨body, mapped⟩ := exists_body_mapArgument i (Bytes.zeros 0)
    rw [mapped]
    obtain ⟨answer, inst, host⟩ :=
      run_withImage (i := { i with body }) accepted accepted' same host r1
    exact ⟨answer, inst, host, rfl⟩
  · have down : i.isSetUp = false := Bool.eq_false_iff.mpr up
    rw [execute_of_idle (i := i.withImage a) down, execute_of_idle (i := i.withImage b) down]
    exact ⟨rfl, rfl, rfl, rfl⟩

theorem executeContext_withImage (host : Surroundings) (argument : Bytes) :
    Execution.ShowsSame b ((i.withImage a).executeContext lookup host argument)
      ((i.withImage b).executeContext lookup host argument) := by
  by_cases up : i.isSetUp = true
  · rw [executeContext_of_setUp (i := i.withImage a) up,
      executeContext_of_setUp (i := i.withImage b) up, mapArgument_withImage,
      mapArgument_withImage, openArgument_withImage, openArgument_withImage]
    obtain ⟨body, mapped⟩ := exists_body_mapArgument i argument
    obtain ⟨body', opened⟩ := exists_body_openArgument { i with body }
    rw [mapped, opened]
    obtain ⟨answer, inst, host⟩ :=
      run_withImage (i := { i with body := body' }) accepted accepted' same host
        RegionTable.argumentBase
    refine ⟨answer, ?_, host, ?_⟩
    · dsimp only
      rw [inst, mapArgument_withImage]
    · dsimp only
      rw [inst]
      rfl
  · have down : i.isSetUp = false := Bool.eq_false_iff.mpr up
    rw [executeContext_of_idle (i := i.withImage a) down,
      executeContext_of_idle (i := i.withImage b) down]
    exact ⟨rfl, rfl, rfl, rfl⟩

end

/-- Two accepted texts with the same listing cannot be told apart by running them, whatever the
instance holds that runs them; and containers with these texts and the same data give rise to the
same instances. -/
theorem listing_determines_execution (a b : Container) (lookup : Lookup) (i : Instance)
    (accepted : Verifier.verify (fun code => (lookup code).isSome) i.config.noReturn a.text =
      .ok ())
    (accepted' : Verifier.verify (fun code => (lookup code).isSome) i.config.noReturn b.text =
      .ok ())
    (same : Text.listing a.text = Text.listing b.text) :
    (∀ host r1, Execution.ShowsSame b ((i.withImage a).execute lookup host r1)
        ((i.withImage b).execute lookup host r1)) ∧
      (∀ host argument, Execution.ShowsSame b ((i.withImage a).executeContext lookup host argument)
        ((i.withImage b).executeContext lookup host argument)) ∧
      (a.SameData b →
        (i.withImage b).setup = ((i.withImage a).setup).map (·.withImage b)) := by
  have lines := Text.lines_of_listing (Verifier.whole_of_verify accepted)
    (Verifier.whole_of_verify accepted') same
  exact ⟨execute_withImage accepted accepted' lines,
    executeContext_withImage accepted accepted' lines, fun data => setup_withImage data i⟩

end Instance

/-- A double-width load, a jump, a division by zero and an exit. -/
def plainDivision : Container :=
  .ofWords [0x0000000100000018, 0x0000000000000000, 0x0000000000000005, 0x0000000000000037,
    0x0000000000000095]

/-- The same program with other values in the fields that no line shows. -/
def decoratedDivision : Container :=
  .ofWords [0x0000000100053018, 0x0000000000071295, 0x0000000900001205, 0x0000000000064037,
    0x0000000400032195]

theorem listing_determines_division :
    let i := { Instance.create none none .standard with
      body := .live (.fresh (Bytes.zeros 512) (Bytes.zeros 0) (Bytes.zeros 0)) (.inMemory 16) }
    let lookup : Lookup := fun _ => none
    i.isSetUp = true ∧ plainDivision.text ≠ decoratedDivision.text ∧
      Text.listing plainDivision.text = Text.listing decoratedDivision.text ∧
      ∀ host r1, Execution.ShowsSame decoratedDivision
        ((i.withImage plainDivision).execute lookup host r1)
        ((i.withImage decoratedDivision).execute lookup host r1) := by
  have same : Text.listing plainDivision.text = Text.listing decoratedDivision.text := by
    decide +kernel
  exact ⟨rfl, by decide, same,
    (Instance.listing_determines_execution plainDivision decoratedDivision _ _ rfl rfl same).1⟩

end BytecodeVm
