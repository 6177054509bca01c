import BytecodeVm.Proofs.LinearScan
import BytecodeVm.Syscall.Registry
import Mathlib

/-! The grammar of accepted texts. What the verifier asks of a text is said here of the slots where
the linear scan stands and of the opcode bytes it meets there, away from the two passes of the
verifier. It accepts exactly the texts of this grammar, and of any other text it blames one slot:
the first whose instruction is flawed by itself, else the first whose jump strays, else the last. -/
namespace BytecodeVm

open LinearScan

def Opcode.wideBytes : List UInt8 := [0x18, 0xb8, 0xd8]

theorem Opcode.forall_byte {P : UInt8 → Prop} (h : ∀ n : Fin 256, P (UInt8.ofNat n.val))
    (b : UInt8) : P b := by
  have at_b := h ⟨b.toNat, b.toNat_lt⟩
  simpa using at_b

namespace Instruction

/-- An instruction of the jump class that is no call and no exit. Its offset names a target. -/
def Jumps (i : Instruction) : Prop := i.opcode &&& 7 = 5 ∧ i.opcode ≠ 0x85 ∧ i.opcode ≠ 0x95

theorem byte_of_kind (i : Instruction) :
    (i.isWide = true ↔ i.opcode ∈ Opcode.wideBytes) ∧ (i.kind = .call ↔ i.opcode = 0x85) ∧
      (i.kind = .exit ↔ i.opcode = 0x95) ∧ (i.namesTarget = true ↔ i.Jumps) := by
  unfold isWide namesTarget kind Jumps
  generalize i.opcode = b
  revert b
  apply Opcode.forall_byte
  decide +kernel

theorem isWide_iff (i : Instruction) : i.isWide = true ↔ i.opcode ∈ Opcode.wideBytes :=
  (byte_of_kind i).1

theorem kind_eq_call_iff (i : Instruction) : i.kind = .call ↔ i.opcode = 0x85 :=
  (byte_of_kind i).2.1

theorem kind_eq_exit_iff (i : Instruction) : i.kind = .exit ↔ i.opcode = 0x95 :=
  (byte_of_kind i).2.2.1

theorem namesTarget_iff (i : Instruction) : i.namesTarget = true ↔ i.Jumps :=
  (byte_of_kind i).2.2.2

end Instruction

namespace LinearScan

/-- A scan that stands at slot `pc` meets the instruction `i` in slot `p`. -/
def Meets (code : List Instruction) (pc p : Nat) (i : Instruction) : Prop :=
  Scans code pc p ∧ code[p]? = some i

structure First (code : List Instruction) (pc : Nat) (P : Nat → Instruction → Prop) (p : Nat)
    (i : Instruction) : Prop where
  met : Meets code pc p i
  holds : P p i
  least : ∀ q j, Meets code pc q j → q < p → ¬ P q j

section

variable {code : List Instruction} {pc p q : Nat} {i j k : Instruction}
  {P : Nat → Instruction → Prop}

theorem First.past (met : code[pc]? = some k) (fails : ¬ P pc k)
    (later : First code (pc + k.width) P p i) : First code pc P p i where
  met := ⟨.past met later.met.1, later.met.2⟩
  holds := later.holds
  least q j meets before := by
    obtain ⟨scanned, found⟩ := meets
    cases scanned with
    | here =>
      obtain rfl : k = j := Option.some.inj (met.symm.trans found)
      exact fails
    | past first rest =>
      obtain rfl := Option.some.inj (met.symm.trans first)
      exact later.least q j ⟨rest, found⟩ before

theorem First.unique (h : First code pc P p i) (h' : First code pc P q j) : p = q ∧ i = j := by
  have same : p = q := by
    by_contra apart
    rcases Nat.lt_or_gt_of_ne apart with before | after
    · exact h'.least p i h.met before h.holds
    · exact h.least q j h'.met after h'.holds
  subst same
  exact ⟨rfl, Option.some.inj (h.met.2.symm.trans h'.met.2)⟩

end

end LinearScan

namespace Verifier

def Whole (text : Bytes) : Prop := text.size ≠ 0 ∧ text.size % 8 = 0

/-- The fault of the instruction `i` in slot `p`, looked at by itself: its registers come first,
then its second word, then its call. -/
def flaw? (known : UInt32 → Bool) (slots p : Nat) (i : Instruction) : Option Fault :=
  if 11 ≤ i.dst.val ∨ 11 ≤ i.src.val then some .illegalRegister
  else if i.opcode ∈ Opcode.wideBytes ∧ slots ≤ p + 1 then some .illegalInstruction
  else if i.opcode = 0x85 ∧ known i.uimm = false then some .illegalCall
  else none

/-- The target of the jump `i` in slot `p` lies in the text, and the slot behind the target holds no
second word. -/
def Lands (code : List Instruction) (p : Nat) (i : Instruction) : Prop :=
  0 ≤ p + i.offset.toInt ∧ p + i.offset.toInt < code.length ∧
    ¬ IsSecond code (p + i.offset.toInt + 1).toNat

/-- The texts that the verifier is there to accept. -/
structure Grammatical (known : UInt32 → Bool) (openEnd : Bool) (text : Bytes) : Prop where
  whole : Whole text
  registers : ∀ p i, Meets (Text.instructions text) 0 p i → i.dst.val < 11 ∧ i.src.val < 11
  complete : ∀ p i, Meets (Text.instructions text) 0 p i → i.opcode ∈ Opcode.wideBytes →
    p + 1 < Text.slots text
  calls : ∀ p i, Meets (Text.instructions text) 0 p i → i.opcode = 0x85 → known i.uimm = true
  jumps : ∀ p i, Meets (Text.instructions text) 0 p i → i.Jumps →
    Lands (Text.instructions text) p i
  ending : openEnd = true ∨ (Text.fetch text (Text.slots text - 1)).opcode = 0x95

def Flawless (known : UInt32 → Bool) (text : Bytes) : Prop :=
  ∀ p i, Meets (Text.instructions text) 0 p i → flaw? known (Text.slots text) p i = none

def Strays (code : List Instruction) (p : Nat) (i : Instruction) : Prop :=
  i.Jumps ∧ ¬ Lands code p i

/-- The fault for which a text is rejected, and the slot that is blamed. -/
inductive Rejected (known : UInt32 → Bool) (openEnd : Bool) (text : Bytes) : Fault → Nat → Prop
  | length (misfit : ¬ Whole text) : Rejected known openEnd text .illegalLength 0
  | flawed {p i f} (whole : Whole text)
      (first : First (Text.instructions text) 0
        (fun p i => flaw? known (Text.slots text) p i ≠ none) p i)
      (reason : flaw? known (Text.slots text) p i = some f) : Rejected known openEnd text f p
  | strays {p i} (whole : Whole text) (flawless : Flawless known text)
      (first : First (Text.instructions text) 0 (Strays (Text.instructions text)) p i) :
      Rejected known openEnd text .illegalJump p
  | unfinished (whole : Whole text) (flawless : Flawless known text)
      (lands : ∀ p i, Meets (Text.instructions text) 0 p i → ¬ Strays (Text.instructions text) p i)
      (closed : openEnd = false)
      (last : (Text.fetch text (Text.slots text - 1)).opcode ≠ 0x95) :
      Rejected known openEnd text .noReturn (Text.slots text - 1)

section

variable {known : UInt32 → Bool} {slots p : Nat} {i : Instruction}

theorem flaw?_eq_none_iff :
    flaw? known slots p i = none ↔
      (i.dst.val < 11 ∧ i.src.val < 11) ∧ (i.opcode ∈ Opcode.wideBytes → p + 1 < slots) ∧
        (i.opcode = 0x85 → known i.uimm = true) := by
  unfold flaw?
  by_cases registers : 11 ≤ i.dst.val ∨ 11 ≤ i.src.val
  · simp only [if_pos registers, reduceCtorEq, false_iff]
    omega
  have inside : i.dst.val < 11 ∧ i.src.val < 11 := by omega
  by_cases second : i.opcode ∈ Opcode.wideBytes ∧ slots ≤ p + 1
  · simp only [if_neg registers, if_pos second, reduceCtorEq, false_iff]
    rintro ⟨-, complete, -⟩
    have := complete second.1
    omega
  have complete (wide : i.opcode ∈ Opcode.wideBytes) : p + 1 < slots := by
    by_contra short
    exact second ⟨wide, Nat.le_of_not_lt short⟩
  by_cases call : i.opcode = 0x85 ∧ known i.uimm = false
  · simp only [if_neg registers, if_neg second, if_pos call, reduceCtorEq, false_iff]
    rintro ⟨-, -, resolved⟩
    cases (resolved call.1).symm.trans call.2
  · simp only [if_neg registers, if_neg second, if_neg call, true_iff]
    refine ⟨inside, complete, fun calls => ?_⟩
    by_contra missing
    exact call ⟨calls, Bool.eq_false_iff.mpr missing⟩

end

section

variable {known : UInt32 → Bool} {code : List Instruction}

theorem flaw?_of_flaw {slots p : Nat} {i : Instruction} {e : VerifyError}
    (h : Flaw known slots p i e) : e.pc = p ∧ flaw? known slots p i = some e.fault := by
  unfold flaw?
  cases h with
  | register outside => exact ⟨rfl, if_pos outside⟩
  | wideAtEnd registers wide last =>
    rw [Instruction.isWide_iff] at wide
    unfold registerCount at registers
    rw [if_neg (by omega), if_pos ⟨wide, last⟩]
    exact ⟨rfl, rfl⟩
  | unknownCall registers kind unknown =>
    have narrow : i.opcode ∉ Opcode.wideBytes := by
      rw [← Instruction.isWide_iff]
      simp [Instruction.isWide, kind]
    rw [Instruction.kind_eq_call_iff] at kind
    unfold registerCount at registers
    rw [if_neg (by omega), if_neg (fun h => narrow h.1), if_pos ⟨kind, unknown⟩]
    exact ⟨rfl, rfl⟩

theorem Proper.flaw?_eq_none {slots p : Nat} {i : Instruction} (h : Proper known slots p i) :
    flaw? known slots p i = none := by
  rw [flaw?_eq_none_iff, ← Instruction.isWide_iff, ← Instruction.kind_eq_call_iff]
  exact ⟨h.registers, h.complete, h.call⟩

theorem first_of_survey (code : List Instruction) (pc : Nat) {e : VerifyError}
    (h : survey known pc (code.drop pc) = .error e) :
    ∃ i, First code pc (fun p i => flaw? known code.length p i ≠ none) e.pc i ∧
      flaw? known code.length e.pc i = some e.fault := by
  revert e
  refine survey_induction known code
    (motive := fun pc r => ∀ {e}, r = .error e → ∃ i,
      First code pc (fun p i => flaw? known code.length p i ≠ none) e.pc i ∧
        flaw? known code.length e.pc i = some e.fault) ?_ ?_ ?_ pc
  · intro pc _ e impossible
    cases impossible
  · intro pc i e met flaw e' same
    cases same
    obtain ⟨rfl, flaw⟩ := flaw?_of_flaw flaw
    refine ⟨i, ⟨⟨.here _, met⟩, by simp [flaw], ?_⟩, flaw⟩
    intro q j meets before
    have := meets.1.le
    omega
  · intro pc i r met proper ih e failed
    cases r with
    | ok s => cases failed
    | error e' =>
      cases failed
      obtain ⟨j, first, reason⟩ := ih rfl
      exact ⟨j, first.past met (not_not.mpr proper.flaw?_eq_none), reason⟩

structure Listed (code : List Instruction) (pc : Nat) (jumps : List Jump) : Prop where
  met : ∀ j ∈ jumps, ∃ i, Meets code pc j.source i ∧ i.namesTarget = true ∧
    j.target = j.source + i.offset.toInt
  ordered : jumps.Pairwise fun j k => j.source < k.source

theorem Listed.past {pc : Nat} {i : Instruction} {s : Survey} (met : code[pc]? = some i)
    (later : Listed code (pc + i.width) s.jumps) : Listed code pc (note pc i s).jumps := by
  have old : ∀ j ∈ s.jumps, ∃ k, Meets code pc j.source k ∧ k.namesTarget = true ∧
      j.target = j.source + k.offset.toInt := by
    intro j listed
    obtain ⟨k, ⟨scanned, found⟩, rest⟩ := later.met j listed
    exact ⟨k, ⟨.past met scanned, found⟩, rest⟩
  unfold note
  by_cases names : i.namesTarget = true
  · rw [if_pos names]
    refine ⟨List.forall_mem_cons.mpr ⟨⟨i, ⟨.here pc, met⟩, names, rfl⟩, old⟩,
      List.pairwise_cons.mpr ⟨?_, later.ordered⟩⟩
    intro j listed
    obtain ⟨k, ⟨scanned, -⟩, -⟩ := later.met j listed
    have behind := scanned.le
    have positive := i.width_pos
    dsimp only
    omega
  · rw [if_neg names]
    exact ⟨old, later.ordered⟩

theorem listed_of_survey (pc : Nat) {s : Survey} (h : survey known pc (code.drop pc) = .ok s) :
    Listed code pc s.jumps := by
  revert s
  refine survey_induction known code
    (motive := fun pc r => ∀ {s}, r = .ok s → Listed code pc s.jumps) ?_ ?_ ?_ pc
  · intro pc _ s done
    cases done
    exact ⟨nofun, .nil⟩
  · intro pc i e _ _ s impossible
    cases impossible
  · intro pc i r met _ ih s done
    cases r with
    | error e => cases done
    | ok s' =>
      cases done
      exact (ih rfl).past met

end

section

variable {known : UInt32 → Bool} {code : List Instruction} {s : Survey}

theorem Surveyed.mem_seconds_iff (h : Surveyed known code 0 s) {q : Nat} :
    q ∈ s.seconds ↔ IsSecond code q := by
  refine ⟨h.seconds q, fun second => ?_⟩
  by_contra free
  obtain ⟨r, i, -, met, -, rfl⟩ := id second
  have inside := (List.getElem?_eq_some_iff.mp met).1
  exact not_isSecond_of_scans (h.covers (r + 1) (Nat.zero_le _) (by omega) free) second

theorem Surveyed.flaw?_eq_none (h : Surveyed known code 0 s) {p : Nat} {i : Instruction}
    (met : Meets code 0 p i) : flaw? known code.length p i = none :=
  (h.passes p i met.1 met.2).flaw?_eq_none

/-- The jump that a survey notes for an instruction passes the second look exactly if the
instruction lands. -/
theorem Surveyed.lands_iff (h : Surveyed known code 0 s) (p : Nat) (i : Instruction) :
    (0 ≤ p + i.offset.toInt ∧ p + i.offset.toInt < code.length ∧
        (p + i.offset.toInt).toNat + 1 ∉ s.seconds) ↔ Lands code p i := by
  rw [Lands, h.mem_seconds_iff]
  refine and_congr_right fun low => and_congr_right fun _ => ?_
  rw [show (p + i.offset.toInt).toNat + 1 = (p + i.offset.toInt + 1).toNat by omega]

end

theorem checkJumps_eq_error {slots : Nat} {seconds : List Nat} {jumps : List Jump}
    {e : VerifyError} (h : checkJumps slots seconds jumps = .error e) :
    ∃ before j after, jumps = before ++ j :: after ∧ e.fault = .illegalJump ∧ e.pc = j.source ∧
      (∀ k ∈ before, 0 ≤ k.target ∧ k.target < (slots : Int) ∧ k.target.toNat + 1 ∉ seconds) ∧
      ¬ (0 ≤ j.target ∧ j.target < (slots : Int) ∧ j.target.toNat + 1 ∉ seconds) := by
  induction jumps with
  | nil => cases h
  | cons first rest ih =>
    simp only [checkJumps] at h
    split at h
    · cases h
      refine ⟨[], first, rest, rfl, rfl, rfl, List.forall_mem_nil _, ?_⟩
      omega
    · rename_i inside
      split at h
      · rename_i second
        cases h
        refine ⟨[], first, rest, rfl, rfl, rfl, List.forall_mem_nil _, ?_⟩
        rintro ⟨-, -, free⟩
        exact free (List.contains_iff_mem.mp second)
      · rename_i free
        obtain ⟨before, j, after, rfl, fault, slot, pass, fails⟩ := ih h
        refine ⟨first :: before, j, after, rfl, fault, slot, ?_, fails⟩
        refine List.forall_mem_cons.mpr ⟨⟨by omega, by omega, ?_⟩, pass⟩
        exact fun listed => free (List.contains_iff_mem.mpr listed)

section

variable {known : UInt32 → Bool} {openEnd : Bool} {text : Bytes} {e : VerifyError}

theorem not_whole_iff : ¬ Whole text ↔ text.size = 0 ∨ text.size % Text.slotSize ≠ 0 := by
  unfold Whole Text.slotSize
  omega

theorem verify_cases (known : UInt32 → Bool) (openEnd : Bool) (text : Bytes) :
    ¬ Whole text ∧ verify known openEnd text = .error (.length text.size) ∨
      Whole text ∧
        ((∃ e, survey known 0 (Text.instructions text) = .error e ∧
            verify known openEnd text = .error e) ∨
          ∃ s, survey known 0 (Text.instructions text) = .ok s ∧
            ((∃ e, checkJumps (Text.slots text) s.seconds s.jumps = .error e ∧
                verify known openEnd text = .error e) ∨
              checkJumps (Text.slots text) s.seconds s.jumps = .ok () ∧
                verify known openEnd text =
                  if openEnd || endsInExit text then .ok ()
                  else .error (.noExit (Text.slots text - 1)))) := by
  unfold verify
  by_cases whole : Whole text
  · have length : ¬ (text.size = 0 ∨ text.size % Text.slotSize ≠ 0) :=
      fun misfit => not_whole_iff.mpr misfit whole
    rw [if_neg length]
    refine .inr ⟨whole, ?_⟩
    cases surveyed : survey known 0 (Text.instructions text) with
    | error e => exact .inl ⟨e, rfl, rfl⟩
    | ok s =>
      refine .inr ⟨s, rfl, ?_⟩
      cases checked : checkJumps (Text.slots text) s.seconds s.jumps with
      | error e =>
        refine .inl ⟨e, rfl, ?_⟩
        simp only [bind, Except.bind, checked]
      | ok _ =>
        refine .inr ⟨rfl, ?_⟩
        simp only [bind, Except.bind, checked]
  · rw [if_pos (not_whole_iff.mp whole)]
    exact .inl ⟨whole, rfl⟩

theorem endsInExit_iff :
    endsInExit text = true ↔ (Text.fetch text (Text.slots text - 1)).opcode = 0x95 := by
  rw [endsInExit, decide_eq_true_eq, Instruction.kind_eq_exit_iff]

theorem flawless_of_surveyed {s : Survey} (h : Surveyed known (Text.instructions text) 0 s) :
    Flawless known text := by
  intro p i met
  rw [← Text.length_instructions]
  exact h.flaw?_eq_none met

theorem rejected_of_survey (whole : Whole text)
    (h : survey known 0 (Text.instructions text) = .error e) :
    Rejected known openEnd text e.fault e.pc := by
  obtain ⟨i, first, reason⟩ := first_of_survey (Text.instructions text) 0 h
  rw [Text.length_instructions] at first reason
  exact .flawed whole first reason

theorem rejected_of_checkJumps {s : Survey} (whole : Whole text)
    (h : survey known 0 (Text.instructions text) = .ok s)
    (fails : checkJumps (Text.slots text) s.seconds s.jumps = .error e) :
    Rejected known openEnd text e.fault e.pc := by
  have surveyed : Surveyed known (Text.instructions text) 0 s := surveyed_of_survey _ 0 h
  have listed : Listed (Text.instructions text) 0 s.jumps := listed_of_survey 0 h
  obtain ⟨before, j, after, jumps, fault, slot, pass, stray⟩ := checkJumps_eq_error fails
  rw [← Text.length_instructions] at pass stray
  obtain ⟨i, met, names, target⟩ := listed.met j (by simp [jumps])
  rw [fault, slot]
  refine .strays whole (flawless_of_surveyed surveyed) (i := i) ⟨met, ?_, ?_⟩
  · rw [target, surveyed.lands_iff] at stray
    exact ⟨(Instruction.namesTarget_iff i).mp names, stray⟩
  · -- an earlier jump stands before this one in the list, so it has passed
    rintro q k meets earlier ⟨isJump, astray⟩
    have noted := (surveyed.passes q k meets.1 meets.2).jump
      ((Instruction.namesTarget_iff k).mpr isJump)
    rw [jumps, List.mem_append, List.mem_cons] at noted
    rcases noted with early | same | late
    · exact astray ((surveyed.lands_iff q k).mp (pass _ early))
    · have : q = j.source := congrArg Jump.source same
      omega
    · have ordered := listed.ordered
      rw [jumps, List.pairwise_append, List.pairwise_cons] at ordered
      have : j.source < q := ordered.2.1.1 _ late
      omega

theorem lands_of_checkJumps {s : Survey} (surveyed : Surveyed known (Text.instructions text) 0 s)
    (h : checkJumps (Text.slots text) s.seconds s.jumps = .ok ()) (p : Nat) (i : Instruction)
    (met : Meets (Text.instructions text) 0 p i) (jumps : i.Jumps) :
    Lands (Text.instructions text) p i := by
  have noted := (surveyed.passes p i met.1 met.2).jump ((Instruction.namesTarget_iff i).mpr jumps)
  have pass := mem_of_checkJumps h _ noted
  rw [← Text.length_instructions] at pass
  exact (surveyed.lands_iff p i).mp pass

theorem rejected_of_verify (h : verify known openEnd text = .error e) :
    Rejected known openEnd text e.fault e.pc := by
  rcases verify_cases known openEnd text with ⟨misfit, answer⟩ |
    ⟨whole, ⟨e', flawed, answer⟩ | ⟨s, surveyed, ⟨e', strays, answer⟩ | ⟨checked, answer⟩⟩⟩
  · cases h.symm.trans answer
    exact .length misfit
  · cases h.symm.trans answer
    exact rejected_of_survey whole flawed
  · cases h.symm.trans answer
    exact rejected_of_checkJumps whole surveyed strays
  · have passed : Surveyed known (Text.instructions text) 0 s := surveyed_of_survey _ 0 surveyed
    rw [h] at answer
    split at answer
    · cases answer
    · rename_i unfinished
      cases answer
      rw [Bool.or_eq_true, not_or, endsInExit_iff, Bool.not_eq_true] at unfinished
      refine .unfinished whole (flawless_of_surveyed passed) ?_ unfinished.1 unfinished.2
      exact fun p i met stray => stray.2 (lands_of_checkJumps passed checked p i met stray.1)

theorem grammatical_of_verify (h : verify known openEnd text = .ok ()) :
    Grammatical known openEnd text := by
  rcases verify_cases known openEnd text with ⟨misfit, answer⟩ |
    ⟨whole, ⟨e', flawed, answer⟩ | ⟨s, surveyed, ⟨e', strays, answer⟩ | ⟨checked, answer⟩⟩⟩
  · cases h.symm.trans answer
  · cases h.symm.trans answer
  · cases h.symm.trans answer
  · have passed : Surveyed known (Text.instructions text) 0 s := surveyed_of_survey _ 0 surveyed
    have fine (p : Nat) (i : Instruction) (met : Meets (Text.instructions text) 0 p i) :=
      flaw?_eq_none_iff.mp (flawless_of_surveyed passed p i met)
    refine ⟨whole, fun p i met => (fine p i met).1, fun p i met => (fine p i met).2.1,
      fun p i met => (fine p i met).2.2, lands_of_checkJumps passed checked, ?_⟩
    rw [h] at answer
    split at answer
    · rename_i finished
      rwa [Bool.or_eq_true, endsInExit_iff] at finished
    · cases answer

theorem Grammatical.flawless (h : Grammatical known openEnd text) : Flawless known text :=
  fun p i met => flaw?_eq_none_iff.mpr ⟨h.registers p i met, h.complete p i met, h.calls p i met⟩

theorem Rejected.not_grammatical {f : Fault} {p : Nat} (h : Rejected known openEnd text f p) :
    ¬ Grammatical known openEnd text := by
  intro good
  cases h with
  | length misfit => exact misfit good.whole
  | flawed _ first _ => exact first.holds (good.flawless _ _ first.met)
  | strays _ _ first => exact first.holds.2 (good.jumps _ _ first.met first.holds.1)
  | unfinished _ _ _ closed last =>
    rcases good.ending with isOpen | ends
    · rw [closed] at isOpen
      cases isOpen
    · exact last ends

theorem Rejected.unique {f g : Fault} {p q : Nat} (h : Rejected known openEnd text f p)
    (h' : Rejected known openEnd text g q) : f = g ∧ p = q := by
  cases h with
  | length misfit =>
    cases h' with
    | length => exact ⟨rfl, rfl⟩
    | flawed whole | strays whole | unfinished whole => exact absurd whole misfit
  | flawed whole first reason =>
    cases h' with
    | length misfit => exact absurd whole misfit
    | flawed _ first' reason' =>
      obtain ⟨rfl, rfl⟩ := first.unique first'
      exact ⟨Option.some.inj (reason.symm.trans reason'), rfl⟩
    | strays _ flawless | unfinished _ flawless =>
      exact absurd (flawless _ _ first.met) first.holds
  | strays whole flawless first =>
    cases h' with
    | length misfit => exact absurd whole misfit
    | flawed _ first' => exact absurd (flawless _ _ first'.met) first'.holds
    | strays _ _ first' => exact ⟨rfl, (first.unique first').1⟩
    | unfinished _ _ lands => exact absurd first.holds (lands _ _ first.met)
  | unfinished whole flawless lands =>
    cases h' with
    | length misfit => exact absurd whole misfit
    | flawed _ first' => exact absurd (flawless _ _ first'.met) first'.holds
    | strays _ _ first' => exact absurd first'.holds (lands _ _ first'.met)
    | unfinished => exact ⟨rfl, rfl⟩

/-- The verifier accepts exactly the texts of the grammar, for every registry and whether or not the
text may be left by its end. Any other text it rejects with the fault, and at the slot, of its first
offence. -/
theorem accepts_exactly_grammar (registry : Registry) (openEnd : Bool) (text : Bytes) :
    let known := fun code => (registry.lookup code).isSome
    (verify known openEnd text = .ok () ↔ Grammatical known openEnd text) ∧
      ∀ f p, (∃ e, verify known openEnd text = .error e ∧ e.fault = f ∧ e.pc = p) ↔
        Rejected known openEnd text f p := by
  intro known
  cases answer : verify known openEnd text with
  | ok _ =>
    have good := grammatical_of_verify answer
    refine ⟨⟨fun _ => good, fun _ => rfl⟩, fun f p => ⟨?_, ?_⟩⟩
    · rintro ⟨e, impossible, -⟩
      cases impossible
    · intro rejected
      exact absurd good rejected.not_grammatical
  | error e =>
    have rejected := rejected_of_verify answer
    refine ⟨⟨nofun, fun good => absurd good rejected.not_grammatical⟩, fun f p => ⟨?_, ?_⟩⟩
    · rintro ⟨e', same, rfl, rfl⟩
      cases same
      exact rejected
    · intro other
      obtain ⟨fault, slot⟩ := rejected.unique other
      exact ⟨e, rfl, fault, slot⟩

end

end Verifier

end BytecodeVm
