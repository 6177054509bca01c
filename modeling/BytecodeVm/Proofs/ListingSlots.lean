import BytecodeVm.Proofs.BranchAccounting
import BytecodeVm.Proofs.Grammar
import BytecodeVm.Proofs.ListingRuns
import Mathlib

/-! Where instructions begin. The listing, the verifier and the processor each step over the second
words of double-width loads, and each treats the end of a text in its own way. They agree: the
numbers in front of the lines are the slots of the linear scan, the slots without a number are those
that the verifier notes as second words, and a run of an accepted text carries out nothing else than
what has a line. -/
namespace BytecodeVm

open LinearScan Numeral

namespace LinearScan

variable {code : List Instruction} {pc p p' q : Nat}

theorem scan_induction (code : List Instruction) {motive : Nat → Prop}
    (past : ∀ pc, code.length ≤ pc → motive pc)
    (onward : ∀ pc i, code[pc]? = some i → motive (pc + i.width) → motive pc) (pc : Nat) :
    motive pc := by
  by_cases inside : pc < code.length
  · refine onward pc code[pc] (List.getElem?_eq_getElem inside) ?_
    exact scan_induction code past onward (pc + code[pc].width)
  · exact past pc (Nat.le_of_not_lt inside)
termination_by code.length - pc
decreasing_by
  have := code[pc].width_pos
  omega

theorem not_lt_of_scans_past (past : code.length ≤ pc) (h : Scans code pc p) :
    ¬ p < code.length := by
  have := h.le
  omega

/-- The instruction in slot `p` takes up slot `q`. -/
def Occupies (code : List Instruction) (p q : Nat) : Prop :=
  ∃ i, code[p]? = some i ∧ p ≤ q ∧ q < p + i.width

theorem exists_occupies (code : List Instruction) (pc : Nat) :
    ∀ q, pc ≤ q → q < code.length → ∃ p, Scans code pc p ∧ Occupies code p q := by
  induction pc using scan_induction code with
  | past pc outside =>
    intro q behind inside
    omega
  | onward pc i met ih =>
    intro q behind inside
    by_cases here : q < pc + i.width
    · exact ⟨pc, .here pc, i, met, behind, here⟩
    · obtain ⟨p, scanned, occupied⟩ := ih q (Nat.le_of_not_lt here) inside
      exact ⟨p, .past met scanned, occupied⟩

theorem Occupies.unique (scanned : Scans code 0 p) (scanned' : Scans code 0 p')
    (h : Occupies code p q) (h' : Occupies code p' q) : p = p' := by
  obtain ⟨i, met, low, high⟩ := h
  obtain ⟨i', met', low', high'⟩ := h'
  by_contra different
  rcases Nat.lt_or_gt_of_ne different with before | after
  · have := scanned.apart scanned' met before
    omega
  · have := scanned'.apart scanned met' after
    omega

end LinearScan

namespace Text

variable {code : List Instruction} {pc p : Nat} {i : Instruction} {line : String}

def slotNumber (line : String) : Nat :=
  value 10 (((line.toList.dropWhile (· == ' ')).takeWhile Char.isDigit).map (·.toNat - 48))

theorem read_digitChar : ∀ d < 10, (digitChar d).isDigit = true ∧ (digitChar d).toNat - 48 = d ∧
    (digitChar d == ' ') = false := by decide

theorem slotNumber_numbered (pc : Nat) (content : String) :
    slotNumber (numbered pc content) = pc := by
  have small : ∀ d ∈ digits 10 pc, d < 10 := lt_of_mem_digits (by decide) pc
  have written : (numbered pc content).toList =
      List.replicate (4 - (decimal pc).length) ' ' ++
        ((digits 10 pc).map digitChar ++ ':' :: ' ' :: content.toList) := by
    simp [numbered, padLeft, decimal, text, String.toList_append]
  have first : ((digits 10 pc).map digitChar ++ ':' :: ' ' :: content.toList).dropWhile (· == ' ') =
      (digits 10 pc).map digitChar ++ ':' :: ' ' :: content.toList := by
    cases shape : digits 10 pc with
    | nil => exact absurd shape (digits_ne_nil 10 pc (by decide))
    | cons d ds =>
      rw [List.map_cons, List.cons_append, List.dropWhile_cons_of_neg]
      simp [(read_digitChar d (small d (by simp [shape]))).2.2]
  have numeral : ((digits 10 pc).map digitChar ++ ':' :: ' ' :: content.toList).takeWhile
      Char.isDigit = (digits 10 pc).map digitChar := by
    rw [List.takeWhile_append_of_pos, List.takeWhile_cons_of_neg (by decide), List.append_nil]
    intro c listed
    obtain ⟨d, member, rfl⟩ := List.mem_map.mp listed
    exact (read_digitChar d (small d member)).1
  have read : ((digits 10 pc).map digitChar).map (·.toNat - 48) = digits 10 pc := by
    rw [List.map_map]
    conv_rhs => rw [← List.map_id (digits 10 pc)]
    exact List.map_congr_left fun d member => (read_digitChar d (small d member)).2.1
  rw [slotNumber, written, List.dropWhile_append_of_pos, first, numeral, read,
    value_digits (by decide)]
  intro c filling
  rw [List.eq_of_mem_replicate filling]
  rfl

theorem numberedFrom_drop (met : code[pc]? = some i) :
    numberedFrom pc (lines (code.drop pc)) =
      numbered pc (Line.ofInstruction i code[pc + 1]?).text ::
        numberedFrom (pc + i.width) (lines (code.drop (pc + i.width))) := by
  rw [lines_drop met, numberedFrom, Line.width_ofInstruction]

theorem numberedFrom_past (past : code.length ≤ pc) :
    numberedFrom pc (lines (code.drop pc)) = [] := by
  rw [List.drop_eq_nil_of_le past, lines, numberedFrom]

theorem mem_slotNumbers_iff (code : List Instruction) (pc : Nat) :
    ∀ p, p ∈ (numberedFrom pc (lines (code.drop pc))).map slotNumber ↔
      Scans code pc p ∧ p < code.length := by
  induction pc using scan_induction code with
  | past pc outside =>
    intro p
    rw [numberedFrom_past outside]
    simpa using not_lt_of_scans_past outside
  | onward pc i met ih =>
    intro p
    have inside := (List.getElem?_eq_some_iff.mp met).1
    rw [numberedFrom_drop met, List.map_cons, slotNumber_numbered, List.mem_cons, ih]
    constructor
    · rintro (rfl | ⟨scanned, before⟩)
      · exact ⟨.here p, inside⟩
      · exact ⟨.past met scanned, before⟩
    · rintro ⟨scanned, before⟩
      cases scanned with
      | here => exact .inl rfl
      | past first rest =>
        obtain rfl := Option.some.inj (met.symm.trans first)
        exact .inr ⟨rest, before⟩

theorem pairwise_slotNumbers (code : List Instruction) (pc : Nat) :
    ((numberedFrom pc (lines (code.drop pc))).map slotNumber).Pairwise (· < ·) := by
  induction pc using scan_induction code with
  | past pc outside =>
    rw [numberedFrom_past outside]
    exact .nil
  | onward pc i met ih =>
    rw [numberedFrom_drop met, List.map_cons, slotNumber_numbered]
    refine List.pairwise_cons.mpr ⟨fun p listed => ?_, ih⟩
    have behind := ((mem_slotNumbers_iff code _ p).mp listed).1.le
    have := i.width_pos
    omega

theorem eq_numbered_of_mem (code : List Instruction) (pc : Nat) :
    ∀ line ∈ numberedFrom pc (lines (code.drop pc)), ∃ i, code[slotNumber line]? = some i ∧
      line = numbered (slotNumber line) (Line.ofInstruction i code[slotNumber line + 1]?).text := by
  induction pc using scan_induction code with
  | past pc outside =>
    rw [numberedFrom_past outside]
    exact List.forall_mem_nil _
  | onward pc i met ih =>
    rw [numberedFrom_drop met]
    refine List.forall_mem_cons.mpr ⟨⟨i, ?_⟩, ih⟩
    rw [slotNumber_numbered]
    exact ⟨met, rfl⟩

/-- The lines of the instructions: their numbers go up, and are the slots where the scan stands. A
line tells the instruction in its slot, together with the second word where there is one; so every
slot belongs to exactly one line. -/
structure ListsScan (code : List Instruction) (body : List String) : Prop where
  increasing : (body.map slotNumber).Pairwise (· < ·)
  starts : ∀ p, p ∈ body.map slotNumber ↔ IsStart code p
  wording : ∀ line ∈ body, ∃ i, code[slotNumber line]? = some i ∧
    line = numbered (slotNumber line) (Line.ofInstruction i code[slotNumber line + 1]?).text
  occupied : ∀ q < code.length, ∃! p, p ∈ body.map slotNumber ∧ Occupies code p q

theorem listsScan (code : List Instruction) : ListsScan code (numberedFrom 0 (lines code)) where
  increasing := pairwise_slotNumbers code 0
  starts := mem_slotNumbers_iff code 0
  wording := eq_numbered_of_mem code 0
  occupied q inside := by
    obtain ⟨p, scanned, occupied⟩ := exists_occupies code 0 q (Nat.zero_le q) inside
    obtain ⟨i, met, -⟩ := id occupied
    have before := (List.getElem?_eq_some_iff.mp met).1
    refine ⟨p, ⟨(mem_slotNumbers_iff code 0 p).mpr ⟨scanned, before⟩, occupied⟩, ?_⟩
    rintro p' ⟨listed, occupied'⟩
    exact occupied'.unique ((mem_slotNumbers_iff code 0 p').mp listed).1 scanned occupied

end Text

theorem Cpu.exists_steps_of_mem_trace {p : Program} {s t : Cpu} (h : t ∈ s.trace p) :
    ∃ n, Steps p s n t ∧ t.pc < p.code.size := by
  induction s using run.induct p with
  | case1 s outcome u ends =>
    cases met : p.code[s.pc]? with
    | none => simp [trace_of_past met] at h
    | some i =>
      rw [trace_of_done met ends, List.mem_singleton] at h
      subst h
      exact ⟨0, .zero, (Array.getElem?_eq_some_iff.mp met).1⟩
  | case2 s next goes ih =>
    rw [trace_of_next goes, List.mem_cons] at h
    rcases h with rfl | later
    · obtain ⟨i, met, -⟩ := moves_of_step goes
      exact ⟨0, .zero, (Array.getElem?_eq_some_iff.mp met).1⟩
    · obtain ⟨n, steps, inside⟩ := ih later
      exact ⟨n + 1, steps.cons goes, inside⟩

theorem Verifier.exists_survey_of_verify {known : UInt32 → Bool} {openEnd : Bool} {text : Bytes}
    (accepted : verify known openEnd text = .ok ()) :
    ∃ s, survey known 0 (Text.instructions text) = .ok s ∧
      ∀ q < Text.slots text, ¬ IsStart (Text.instructions text) q ↔ q ∈ s.seconds := by
  rcases verify_cases known openEnd text with ⟨-, answer⟩ |
    ⟨-, ⟨e, -, answer⟩ | ⟨s, surveyed, -⟩⟩
  · cases accepted.symm.trans answer
  · cases accepted.symm.trans answer
  · have passed : Surveyed known (Text.instructions text) 0 s := surveyed_of_survey _ 0 surveyed
    refine ⟨s, surveyed, fun q inside => ?_⟩
    rw [passed.mem_seconds_iff]
    constructor
    · intro none
      by_contra free
      refine none ⟨scans_of_verify accepted (Nat.le_of_lt inside) free, ?_⟩
      rwa [Text.length_instructions]
    · exact fun second start => not_isSecond_of_scans start.1 second

namespace Text

/-- Listing, verifier and processor agree on where instructions begin. The listing of any text has a
line for each instruction of the scan, and one more exactly if the text does not end with a whole
slot. If the text is accepted, the slots without a line are those that the verifier notes as second
words, and every instruction that a run carries out has its line. -/
theorem boundaries_agree (text : Bytes) :
    ∃ body, ListsScan (instructions text) body ∧
      listing text = body ++ (if text.size % 8 = 0 then [] else
        [numbered (slots text) ("<" ++ decimal (text.size % 8) ++ " trailing bytes>")]) ∧
      (∀ known openEnd, Verifier.verify known openEnd text = .ok () →
        ∃ s, Verifier.survey known 0 (instructions text) = .ok s ∧
          ∀ q < slots text, q ∉ body.map slotNumber ↔ q ∈ s.seconds) ∧
      ∀ (i : Instance) (image : Container) lookup host r1, i.image = some image →
        image.text = text → i.Accepted lookup →
        ∀ s ∈ (i.boot host r1).trace (.ofText text lookup), s.pc ∈ body.map slotNumber := by
  have lists := listsScan (instructions text)
  refine ⟨_, lists, ?_, ?_, ?_⟩
  · rw [listing, numberedFrom_lines]
    rfl
  · intro known openEnd accepted
    obtain ⟨s, surveyed, seconds⟩ := Verifier.exists_survey_of_verify accepted
    refine ⟨s, surveyed, fun q inside => ?_⟩
    rw [lists.starts, seconds q inside]
  · rintro i image lookup host r1 loaded rfl ⟨image', loaded', accepted⟩ s carried
    obtain rfl : image = image' := Option.some.inj (loaded.symm.trans loaded')
    obtain ⟨n, steps, inside⟩ := Cpu.exists_steps_of_mem_trace carried
    obtain ⟨scanned, -⟩ := scans_of_steps accepted rfl steps
    rw [lists.starts]
    exact ⟨scanned, by simpa [Program.ofText] using inside⟩

end Text

theorem boundaries_agree_jumpOverWide :
    let text := jumpOverWide.text
    let lookup : Lookup := fun _ => some panicking
    let i := Instance.create (some jumpOverWide) none .standard
    let host : Surroundings := ⟨.inMemory 16, .silent, 0⟩
    i.Accepted lookup ∧ ∃ body, Text.listing text = body ∧
      (∃ s, Verifier.survey (fun code => (lookup code).isSome) 0 (Text.instructions text) = .ok s ∧
        2 ∈ s.seconds ∧ 2 ∉ body.map Text.slotNumber) ∧
      ∀ s ∈ (i.boot host 7).trace (.ofText text lookup), s.pc ∈ body.map Text.slotNumber := by
  intro text lookup i host
  have passed : Verifier.verify (fun code => (lookup code).isSome) i.config.noReturn
      jumpOverWide.text = .ok () := rfl
  have accepted : i.Accepted lookup := ⟨jumpOverWide, rfl, passed⟩
  obtain ⟨body, -, listed, seconds, dispatched⟩ := Text.boundaries_agree text
  obtain ⟨s, surveyed, without⟩ := seconds _ _ passed
  have noted : Verifier.survey (fun code => (lookup code).isSome) 0
      (Text.instructions jumpOverWide.text) = .ok ⟨[⟨0, 2⟩], [2]⟩ := by decide +kernel
  have second : 2 ∈ s.seconds := by
    rw [Except.ok.inj (surveyed.symm.trans noted)]
    exact List.mem_singleton_self 2
  refine ⟨accepted, body, ?_, ⟨s, surveyed, second, (without 2 (by decide)).mpr second⟩,
    dispatched i jumpOverWide lookup host 7 rfl rfl accepted⟩
  rw [listed, if_pos (by decide), List.append_nil]

end BytecodeVm
