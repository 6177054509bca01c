import BytecodeVm.Verifier

/-! The linear scan of a text: from slot 0 on, one slot for each instruction and two for a
double-width load. The slots where the scan stands are the starts of instructions; the one
behind the first word of a double-width load is a second half. What the verifier accepts is
stated here in these terms, away from the order in which it looks at things. -/
namespace BytecodeVm

def Instruction.width (i : Instruction) : Nat := if i.isWide then 2 else 1

def Instruction.namesTarget (i : Instruction) : Bool :=
  match i.kind with
  | .jump _ _ | .unknownJump => true
  | _ => false

theorem Instruction.width_of_isWide {i : Instruction} (wide : i.isWide = true) : i.width = 2 :=
  if_pos wide

theorem Instruction.width_of_not_isWide {i : Instruction} (narrow : i.isWide = false) :
    i.width = 1 := by
  simp [width, narrow]

theorem Instruction.width_pos (i : Instruction) : 0 < i.width := by
  unfold width
  split <;> omega

theorem Instruction.exists_kind_of_isWide {i : Instruction} (wide : i.isWide = true) :
    ∃ base, i.kind = .wide base := by
  unfold isWide at wide
  split at wide
  · rename_i base kind
    exact ⟨base, kind⟩
  · cases wide

@[simp] theorem Text.length_instructions (text : Bytes) :
    (Text.instructions text).length = Text.slots text := by
  simp [Text.instructions]

theorem Text.getElem?_instructions (text : Bytes) (pc : Nat) :
    (Text.instructions text)[pc]? =
      if pc < Text.slots text then some (Text.fetch text pc) else none := by
  rw [Text.instructions, List.getElem?_map]
  split
  · rename_i inside
    rw [List.getElem?_range inside, Option.map_some]
  · rename_i outside
    rw [List.getElem?_eq_none (by simpa using outside), Option.map_none]

namespace LinearScan

/-- A scan that stands at slot `pc` comes to slot `q`. -/
inductive Scans (code : List Instruction) : (pc q : Nat) → Prop
  | here (pc : Nat) : Scans code pc pc
  | past {pc q i} (met : code[pc]? = some i) (rest : Scans code (pc + i.width) q) :
      Scans code pc q

def IsStart (code : List Instruction) (pc : Nat) : Prop := Scans code 0 pc ∧ pc < code.length

/-- The slot `q` holds the second word of a double-width load that a scan from `pc` meets. -/
def SecondFrom (code : List Instruction) (pc q : Nat) : Prop :=
  ∃ r i, Scans code pc r ∧ code[r]? = some i ∧ i.isWide = true ∧ q = r + 1

def IsSecond (code : List Instruction) (pc : Nat) : Prop := SecondFrom code 0 pc

section

variable {code : List Instruction} {pc q r : Nat} {i : Instruction}

theorem Scans.le (h : Scans code pc q) : pc ≤ q := by
  induction h with
  | here => exact Nat.le_refl _
  | past met rest ih => omega

theorem Scans.next (h : Scans code pc q) (met : code[q]? = some i) :
    Scans code pc (q + i.width) := by
  induction h with
  | here => exact .past met (.here _)
  | past first rest ih => exact .past first (ih met)

theorem Scans.apart (h : Scans code pc q) (h' : Scans code pc r) (met : code[q]? = some i)
    (lt : q < r) : q + i.width ≤ r := by
  induction h with
  | here =>
    cases h' with
    | here => omega
    | past met' rest =>
      cases met.symm.trans met'
      exact rest.le
  | past first rest ih =>
    cases h' with
    | here =>
      have := rest.le
      omega
    | past first' rest' =>
      cases first.symm.trans first'
      exact ih rest' met lt

theorem not_isSecond_of_scans (h : Scans code 0 pc) : ¬ IsSecond code pc := by
  rintro ⟨q, i, scanned, met, wide, rfl⟩
  have := scanned.apart h met (Nat.lt_succ_self q)
  rw [Instruction.width_of_isWide wide] at this
  omega

end

end LinearScan

namespace Verifier

open LinearScan

structure Proper (known : UInt32 → Bool) (slots pc : Nat) (i : Instruction) : Prop where
  registers : i.dst.val < registerCount ∧ i.src.val < registerCount
  complete : i.isWide = true → pc + 1 < slots
  call : i.kind = .call → known i.uimm = true

/-- Why the pass over the text stops at an instruction: its registers come first, then its second
word, then its call. -/
inductive Flaw (known : UInt32 → Bool) (slots pc : Nat) (i : Instruction) : VerifyError → Prop
  | register (outside : registerCount ≤ i.dst.val ∨ registerCount ≤ i.src.val) :
      Flaw known slots pc i (.register pc i.dst i.src)
  | wideAtEnd (registers : i.dst.val < registerCount ∧ i.src.val < registerCount)
      (wide : i.isWide = true) (last : slots ≤ pc + 1) : Flaw known slots pc i (.wideAtEnd pc)
  | unknownCall (registers : i.dst.val < registerCount ∧ i.src.val < registerCount)
      (kind : i.kind = .call) (unknown : known i.uimm = false) :
      Flaw known slots pc i (.unknownCall pc i.uimm)

def note (pc : Nat) (i : Instruction) (s : Survey) : Survey where
  jumps := if i.namesTarget then ⟨pc, pc + i.offset.toInt⟩ :: s.jumps else s.jumps
  seconds := if i.isWide then (pc + 1) :: s.seconds else s.seconds

/-- One step of the pass: it stops at a flaw, or it notes the instruction and goes on behind it. -/
theorem survey_cons_cases (known : UInt32 → Bool) (pc : Nat) (i : Instruction)
    (rest : List Instruction) :
    (∃ e, survey known pc (i :: rest) = .error e ∧ Flaw known (pc + (rest.length + 1)) pc i e) ∨
      Proper known (pc + (rest.length + 1)) pc i ∧
        survey known pc (i :: rest) =
          (survey known (pc + i.width) (rest.drop (i.width - 1))).map (note pc i) := by
  by_cases outside : registerCount ≤ i.dst.val ∨ registerCount ≤ i.src.val
  · refine .inl ⟨_, ?_, .register outside⟩
    rw [survey.eq_def]
    exact if_pos outside
  have registers : i.dst.val < registerCount ∧ i.src.val < registerCount := by omega
  rw [survey.eq_def]
  simp only [if_neg outside]
  cases kind : i.kind with
  | wide base =>
    have wide : i.isWide = true := by simp [Instruction.isWide, kind]
    have names : i.namesTarget = false := by simp [Instruction.namesTarget, kind]
    rw [Instruction.width_of_isWide wide]
    cases rest with
    | nil => exact .inl ⟨_, rfl, .wideAtEnd registers wide (Nat.le_refl _)⟩
    | cons second rest =>
      refine .inr ⟨⟨registers, fun _ => ?_, by simp [kind]⟩, ?_⟩
      · rw [List.length_cons]
        omega
      · have behind : (second :: rest).drop (2 - 1) = rest := rfl
        rw [behind]
        dsimp only
        cases survey known (pc + 2) rest <;>
          simp [note, wide, names, bind, Except.bind, pure, Except.pure, Except.map]
  | call =>
    have narrow : i.isWide = false := by simp [Instruction.isWide, kind]
    have names : i.namesTarget = false := by simp [Instruction.namesTarget, kind]
    rw [Instruction.width_of_not_isWide narrow, Nat.sub_self, List.drop_zero]
    cases resolved : known i.uimm with
    | false => exact .inl ⟨_, rfl, .unknownCall registers kind resolved⟩
    | true =>
      refine .inr ⟨⟨registers, by simp [narrow], fun _ => resolved⟩, ?_⟩
      cases survey known (pc + 1) rest <;> simp [note, narrow, names, Except.map]
  | jump | unknownJump =>
    have narrow : i.isWide = false := by simp [Instruction.isWide, kind]
    have names : i.namesTarget = true := by simp [Instruction.namesTarget, kind]
    rw [Instruction.width_of_not_isWide narrow, Nat.sub_self, List.drop_zero]
    refine .inr ⟨⟨registers, by simp [narrow], by simp [kind]⟩, ?_⟩
    cases survey known (pc + 1) rest <;>
      simp [note, narrow, names, bind, Except.bind, pure, Except.pure, Except.map]
  | alu | unknownAlu | exit | load | storeImmediate | storeRegister | undefined =>
    have narrow : i.isWide = false := by simp [Instruction.isWide, kind]
    have names : i.namesTarget = false := by simp [Instruction.namesTarget, kind]
    rw [Instruction.width_of_not_isWide narrow, Nat.sub_self, List.drop_zero]
    refine .inr ⟨⟨registers, by simp [narrow], by simp [kind]⟩, ?_⟩
    cases survey known (pc + 1) rest <;> simp [note, narrow, names, Except.map]

theorem survey_drop_cases (known : UInt32 → Bool) {code : List Instruction} {pc : Nat}
    {i : Instruction} (met : code[pc]? = some i) :
    (∃ e, survey known pc (code.drop pc) = .error e ∧ Flaw known code.length pc i e) ∨
      Proper known code.length pc i ∧
        survey known pc (code.drop pc) =
          (survey known (pc + i.width) (code.drop (pc + i.width))).map (note pc i) := by
  obtain ⟨inside, rfl⟩ := List.getElem?_eq_some_iff.mp met
  have count : pc + ((code.drop (pc + 1)).length + 1) = code.length := by
    rw [List.length_drop]
    omega
  have width : pc + 1 + (code[pc].width - 1) = pc + code[pc].width := by
    have := code[pc].width_pos
    omega
  have cases := survey_cons_cases known pc code[pc] (code.drop (pc + 1))
  rwa [count, List.drop_drop, width, ← List.drop_eq_getElem_cons inside] at cases

theorem Flaw.not_proper {known : UInt32 → Bool} {slots pc : Nat} {i : Instruction}
    {e : VerifyError} (flaw : Flaw known slots pc i e) : ¬ Proper known slots pc i := by
  intro proper
  cases flaw with
  | register outside =>
    have := proper.registers
    omega
  | wideAtEnd _ wide last =>
    have := proper.complete wide
    omega
  | unknownCall _ kind unknown => simp [proper.call kind] at unknown

theorem survey_induction (known : UInt32 → Bool) (code : List Instruction)
    {motive : Nat → Except VerifyError Survey → Prop}
    (past : ∀ pc, code.length ≤ pc → motive pc (.ok ⟨[], []⟩))
    (flawed : ∀ pc i e, code[pc]? = some i → Flaw known code.length pc i e → motive pc (.error e))
    (onward : ∀ pc i r, code[pc]? = some i → Proper known code.length pc i →
      motive (pc + i.width) r → motive pc (r.map (note pc i)))
    (pc : Nat) : motive pc (survey known pc (code.drop pc)) := by
  by_cases inside : pc < code.length
  · have met : code[pc]? = some code[pc] := List.getElem?_eq_getElem inside
    rcases survey_drop_cases known met with ⟨e, stops, flaw⟩ | ⟨proper, goes⟩
    · rw [stops]
      exact flawed pc code[pc] e met flaw
    · rw [goes]
      refine onward pc code[pc] _ met proper ?_
      exact survey_induction known code past flawed onward (pc + code[pc].width)
  · rw [List.drop_eq_nil_of_le (Nat.le_of_not_lt inside)]
    exact past pc (Nat.le_of_not_lt inside)
termination_by code.length - pc
decreasing_by
  have := code[pc].width_pos
  omega

structure Passes (known : UInt32 → Bool) (code : List Instruction) (s : Survey) (pc : Nat)
    (i : Instruction) : Prop extends Proper known code.length pc i where
  jump : i.namesTarget = true → ⟨pc, pc + i.offset.toInt⟩ ∈ s.jumps

/-- A survey of the slots from `pc` on: every instruction that the scan meets there passes, and
the scan comes to every slot but those noted as second words, which are second words. -/
structure Surveyed (known : UInt32 → Bool) (code : List Instruction) (pc : Nat) (s : Survey) :
    Prop where
  passes : ∀ q i, Scans code pc q → code[q]? = some i → Passes known code s q i
  covers : ∀ q, pc ≤ q → q ≤ code.length → q ∉ s.seconds → Scans code pc q
  seconds : ∀ q ∈ s.seconds, SecondFrom code pc q

section

variable {known : UInt32 → Bool} {code : List Instruction} {pc : Nat} {i : Instruction}
  {s : Survey}

theorem mem_jumps_note {j : Jump} (listed : j ∈ s.jumps) : j ∈ (note pc i s).jumps := by
  unfold note
  split
  · exact List.mem_cons_of_mem _ listed
  · exact listed

theorem mem_seconds_note {q : Nat} :
    q ∈ (note pc i s).seconds ↔ q ∈ s.seconds ∨ i.isWide = true ∧ q = pc + 1 := by
  cases wide : i.isWide with
  | true => simp [note, wide, or_comm]
  | false => simp [note, wide]

theorem Surveyed.past (later : Surveyed known code (pc + i.width) s)
    (met : code[pc]? = some i) (proper : Proper known code.length pc i) :
    Surveyed known code pc (note pc i s) where
  passes q i' scanned met' := by
    cases scanned with
    | here =>
      cases met.symm.trans met'
      exact ⟨proper, fun names => by simp [note, names]⟩
    | past first rest =>
      cases met.symm.trans first
      have kept := later.passes q i' rest met'
      exact ⟨kept.toProper, fun names => mem_jumps_note (kept.jump names)⟩
  covers q from_pc inside free := by
    rw [mem_seconds_note, not_or] at free
    rcases Nat.eq_or_lt_of_le from_pc with rfl | behind
    · exact .here _
    · refine .past met (later.covers q ?_ inside free.1)
      -- only the second word of a double-width load lies between
      cases width : i.isWide with
      | false =>
        rw [Instruction.width_of_not_isWide width]
        omega
      | true =>
        rw [Instruction.width_of_isWide width]
        have : q ≠ pc + 1 := fun eq => free.2 ⟨width, eq⟩
        omega
  seconds q listed := by
    rcases mem_seconds_note.mp listed with listed | ⟨wide, rfl⟩
    · obtain ⟨r, i', scanned, met', wide, rfl⟩ := later.seconds q listed
      exact ⟨r, i', .past met scanned, met', wide, rfl⟩
    · exact ⟨pc, i, .here pc, met, wide, rfl⟩

theorem surveyed_end (past : code.length ≤ pc) : Surveyed known code pc ⟨[], []⟩ where
  passes q i scanned met := by
    have inside := (List.getElem?_eq_some_iff.mp met).1
    have := scanned.le
    omega
  covers q from_pc inside _ := by
    have : q = pc := by omega
    rw [this]
    exact .here pc
  seconds _ listed := nomatch listed

theorem surveyed_of_survey (code : List Instruction) (pc : Nat)
    (h : survey known pc (code.drop pc) = .ok s) : Surveyed known code pc s := by
  revert s
  refine survey_induction known code
    (motive := fun pc r => ∀ {s}, r = .ok s → Surveyed known code pc s) ?_ ?_ ?_ pc
  · intro pc past s done
    cases done
    exact surveyed_end past
  · intro pc i e _ _ s impossible
    cases impossible
  · intro pc i r met proper ih s done
    cases r with
    | error e => cases done
    | ok s' =>
      cases done
      exact (ih rfl).past met proper

end

theorem mem_of_checkJumps {slots : Nat} {seconds : List Nat} {jumps : List Jump}
    (h : checkJumps slots seconds jumps = .ok ()) :
    ∀ j ∈ jumps, 0 ≤ j.target ∧ j.target < slots ∧ j.target.toNat + 1 ∉ seconds := by
  induction jumps with
  | nil => simp
  | cons first rest ih =>
    simp only [checkJumps] at h
    split at h
    · cases h
    · split at h
      · cases h
      · rename_i inside free
        intro j listed
        rcases List.mem_cons.mp listed with rfl | listed
        · exact ⟨by omega, by omega, by simpa using free⟩
        · exact ih h j listed

structure Sound (known : UInt32 → Bool) (code : List Instruction) (pc : Nat) (i : Instruction) :
    Prop extends Proper known code.length pc i where
  target : i.namesTarget = true → 0 ≤ pc + i.offset.toInt ∧ pc + i.offset.toInt < code.length
  landing : i.namesTarget = true → Scans code 0 (pc + i.offset.toInt + 1).toNat

section

variable {known : UInt32 → Bool} {openEnd : Bool} {text : Bytes}

theorem slots_pos_of_verify (h : verify known openEnd text = .ok ()) : 0 < Text.slots text := by
  unfold verify at h
  split at h
  · cases h
  · rename_i length
    simp only [Text.slots, Text.slotSize] at length ⊢
    omega

theorem whole_of_verify (h : verify known openEnd text = .ok ()) :
    text.size % Text.slotSize = 0 := by
  unfold verify at h
  split at h
  · cases h
  · rename_i length
    omega

theorem parts_of_verify (h : verify known openEnd text = .ok ()) :
    ∃ s, Surveyed known (Text.instructions text) 0 s ∧
      checkJumps (Text.slots text) s.seconds s.jumps = .ok () ∧
      (openEnd || endsInExit text) = true := by
  unfold verify at h
  split at h
  · cases h
  · cases surveyed : survey known 0 (Text.instructions text) with
    | error e => simp [surveyed, bind, Except.bind] at h
    | ok s =>
      cases jumps : checkJumps (Text.slots text) s.seconds s.jumps with
      | error e => simp [surveyed, jumps, bind, Except.bind] at h
      | ok _ =>
        refine ⟨s, surveyed_of_survey _ 0 surveyed, jumps, ?_⟩
        simp only [surveyed, jumps, bind, Except.bind] at h
        split at h
        · assumption
        · cases h

theorem scans_of_verify (h : verify known openEnd text = .ok ()) {pc : Nat}
    (inside : pc ≤ Text.slots text) (start : ¬ IsSecond (Text.instructions text) pc) :
    Scans (Text.instructions text) 0 pc := by
  obtain ⟨s, survey, -, -⟩ := parts_of_verify h
  refine survey.covers pc (Nat.zero_le _) (by rwa [Text.length_instructions]) ?_
  exact fun listed => start (survey.seconds pc listed)

theorem sound_of_verify (h : verify known openEnd text = .ok ()) {pc : Nat} {i : Instruction}
    (scanned : Scans (Text.instructions text) 0 pc)
    (met : (Text.instructions text)[pc]? = some i) :
    Sound known (Text.instructions text) pc i := by
  obtain ⟨s, survey, jumps, -⟩ := parts_of_verify h
  have passes := survey.passes pc i scanned met
  have target (names : i.namesTarget = true) := mem_of_checkJumps jumps _ (passes.jump names)
  refine ⟨passes.toProper, ?_, ?_⟩
  · intro names
    obtain ⟨low, high, -⟩ := target names
    rw [Text.length_instructions]
    exact ⟨low, high⟩
  · intro names
    obtain ⟨low, high, free⟩ := target names
    simp only at low high free
    refine survey.covers _ (Nat.zero_le _) ?_ ?_
    · rw [Text.length_instructions]
      omega
    · rwa [show (pc + i.offset.toInt + 1).toNat = (pc + i.offset.toInt).toNat + 1 by omega]

end

end Verifier

end BytecodeVm
