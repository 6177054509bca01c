import BytecodeVm.Proofs.ByteStrings
import BytecodeVm.Proofs.TerminalExit
import Mathlib

/-! Instruction words. The fields of a word do not overlap, so as a number the word is their sum,
each at its power of two, and reading them off gives back what was written. A text made of words
holds each of them in its slot, and the two words of a double-width load carry every 64-bit value
through their signed halves into the register. -/
namespace BytecodeVm

theorem toNat_or_shiftLeft {x y : UInt64} {n m : Nat} (k : Nat) (number : x.toNat = n)
    (field : y.toNat = m) (short : k < 64) (low : n < 2 ^ k) (fits : m * 2 ^ k < 2 ^ 64) :
    (x ||| y <<< UInt64.ofNat k).toNat = n + m * 2 ^ k := by
  have shift : (UInt64.ofNat k).toNat % 64 = k := by
    rw [UInt64.toNat_ofNat', Nat.mod_mod_of_dvd k (by decide), Nat.mod_eq_of_lt short]
  rw [UInt64.toNat_or, UInt64.toNat_shiftLeft, shift, number, field, Nat.shiftLeft_eq,
    Nat.mod_eq_of_lt fits, Nat.lor_comm, ← Nat.shiftLeft_eq,
    ← Nat.shiftLeft_add_eq_or_of_lt low, Nat.add_comm]

namespace Instruction

theorem toNat_encode (i : Instruction) :
    i.encode.toNat = i.opcode.toNat + i.dst.val * 2 ^ 8 + i.src.val * 2 ^ 12 +
      i.offset.toUInt16.toNat * 2 ^ 16 + i.imm.toUInt32.toNat * 2 ^ 32 := by
  have opcode := i.opcode.toNat_lt
  have dst := i.dst.isLt
  have src := i.src.isLt
  have offset := i.offset.toUInt16.toNat_lt
  have imm := i.imm.toUInt32.toNat_lt
  have register (r : Register) : (UInt64.ofNat r.val).toNat = r.val :=
    UInt64.toNat_ofNat_of_lt' (r.isLt.trans (by decide))
  have with_dst := toNat_or_shiftLeft 8 i.opcode.toNat_toUInt64 (register i.dst)
    (by omega) opcode (by omega)
  have with_src := toNat_or_shiftLeft 12 with_dst (register i.src)
    (by omega) (by omega) (by omega)
  have with_offset := toNat_or_shiftLeft 16 with_src i.offset.toUInt16.toNat_toUInt64
    (by omega) (by omega) (by omega)
  exact toNat_or_shiftLeft 32 with_offset i.imm.toUInt32.toNat_toUInt64
    (by omega) (by omega) (by omega)

section

variable (w : UInt64)

theorem opcode_decode : (decode w).opcode.toNat = w.toNat % 2 ^ 8 := by
  simp [decode]

theorem dst_decode : (decode w).dst.val = w.toNat / 2 ^ 8 % 2 ^ 4 := by
  simp [decode, Nat.shiftRight_eq_div_pow]

theorem src_decode : (decode w).src.val = w.toNat / 2 ^ 12 % 2 ^ 4 := by
  simp [decode, Nat.shiftRight_eq_div_pow]

theorem offset_decode : (decode w).offset.toUInt16.toNat = w.toNat / 2 ^ 16 % 2 ^ 16 := by
  simp [decode, Nat.shiftRight_eq_div_pow]

theorem imm_decode : (decode w).imm.toUInt32.toNat = w.toNat / 2 ^ 32 % 2 ^ 32 := by
  simp [decode, Nat.shiftRight_eq_div_pow]

theorem encode_decode : encode (decode w) = w := by
  apply UInt64.toNat_inj.mp
  have small := w.toNat_lt
  rw [toNat_encode, opcode_decode, dst_decode, src_decode, offset_decode, imm_decode]
  omega

end

theorem ext_toNat {i j : Instruction} (opcode : i.opcode.toNat = j.opcode.toNat)
    (dst : i.dst.val = j.dst.val) (src : i.src.val = j.src.val)
    (offset : i.offset.toUInt16.toNat = j.offset.toUInt16.toNat)
    (imm : i.imm.toUInt32.toNat = j.imm.toUInt32.toNat) : i = j := by
  have offset := congrArg UInt16.toInt16 (UInt16.toNat_inj.mp offset)
  have imm := congrArg UInt32.toInt32 (UInt32.toNat_inj.mp imm)
  rw [Int16.toInt16_toUInt16, Int16.toInt16_toUInt16] at offset
  rw [Int32.toInt32_toUInt32, Int32.toInt32_toUInt32] at imm
  cases i
  cases j
  simp only [mk.injEq]
  exact ⟨UInt8.toNat_inj.mp opcode, Fin.ext dst, Fin.ext src, offset, imm⟩

theorem decode_encode (i : Instruction) : decode (encode i) = i := by
  have opcode := i.opcode.toNat_lt
  have dst := i.dst.isLt
  have src := i.src.isLt
  have offset := i.offset.toUInt16.toNat_lt
  have imm := i.imm.toUInt32.toNat_lt
  apply ext_toNat
  · rw [opcode_decode, toNat_encode]
    omega
  · rw [dst_decode, toNat_encode]
    omega
  · rw [src_decode, toNat_encode]
    omega
  · rw [offset_decode, toNat_encode]
    omega
  · rw [imm_decode, toNat_encode]
    omega

theorem wideImm_halves (value : UInt64) {low high : Instruction}
    (lower : low.imm = value.toUInt32.toInt32)
    (upper : high.imm = (value >>> 32).toUInt32.toInt32) : wideImm low high = value := by
  have small := value.toNat_lt
  have bottom : low.uimm.toUInt64.toNat = value.toNat % 2 ^ 32 := by
    simp [uimm, lower]
  have top : high.uimm.toUInt64.toNat = value.toNat / 2 ^ 32 := by
    simp only [uimm, upper, UInt32.toUInt32_toInt32, UInt32.toNat_toUInt64, UInt64.toNat_toUInt32,
      UInt64.toNat_shiftRight, UInt64.reduceToNat, Nat.reduceMod, Nat.shiftRight_eq_div_pow]
    omega
  apply UInt64.toNat_inj.mp
  rw [wideImm]
  exact (toNat_or_shiftLeft 32 bottom top (by omega) (by omega) (by omega)).trans (by omega)

end Instruction

namespace Text

/-- The given words stand in the text from slot `pc` on. -/
structure HasWords (text : Bytes) (pc : Nat) (words : List UInt64) : Prop where
  inside : pc + words.length ≤ slots text
  word : ∀ k w, words[k]? = some w → Text.word text (pc + k) = w

theorem size_assemble (words : List UInt64) : (assemble words).size = slotSize * words.length := by
  rw [assemble, Bytes.size_ofList]
  induction words with
  | nil => rfl
  | cons w words ih =>
    rw [List.flatMap_cons, List.length_append, ih, LittleEndian.length_ofNat, List.length_cons,
      Nat.mul_succ, Nat.add_comm]

theorem slots_assemble (words : List UInt64) : slots (assemble words) = words.length := by
  rw [slots, size_assemble, Nat.mul_div_cancel_left _ (by decide)]

theorem word_assemble {words : List UInt64} {k : Nat} {w : UInt64} (listed : words[k]? = some w) :
    word (assemble words) k = w := by
  have block := Blocks.take_drop_flatMap
    (f := fun w : UInt64 => LittleEndian.ofNat slotSize w.toNat)
    (fun w => LittleEndian.length_ofNat slotSize w.toNat) words [] listed
  have small : w.toNat < 256 ^ slotSize := w.toNat_lt
  rw [List.append_nil] at block
  rw [word, Bytes.number, Bytes.toList_slice, assemble, Bytes.toList_ofList, Nat.mul_comm, block,
    LittleEndian.toNat_ofNat_of_lt small, UInt64.ofNat_toNat]

theorem hasWords_assemble (before words after : List UInt64) :
    HasWords (assemble (before ++ words ++ after)) before.length words where
  inside := by
    rw [slots_assemble, List.length_append, List.length_append]
    omega
  word k w listed := by
    apply word_assemble
    rw [List.append_assoc, List.getElem?_append_right (by omega), Nat.add_sub_cancel_left,
      List.getElem?_append_left (List.getElem?_eq_some_iff.mp listed).1, listed]

theorem HasWords.getElem?_ofText {text : Bytes} {pc k : Nat} {words : List UInt64} {w : UInt64}
    (h : HasWords text pc words) (listed : words[k]? = some w) (lookup : Lookup) :
    (Program.ofText text lookup).code[pc + k]? = some (Instruction.decode w) := by
  have inside := h.inside
  have length := (List.getElem?_eq_some_iff.mp listed).1
  rw [BytecodeVm.getElem?_ofText, getElem?_instructions, if_pos (by omega), fetch,
    h.word k w listed]

end Text

namespace Registers

variable {r : Registers} {c d : Cell} {v : UInt64}

theorem get_set_self : (r.set c v).get c = v :=
  Vector.getElem_set_self c.isLt

theorem get_set_of_ne (other : d ≠ c) : (r.set c v).get d = r.get d := by
  have apart : c.val ≠ d.val := fun same => other (Fin.ext same.symm)
  exact Vector.getElem_set_ne c.isLt d.isLt apart

end Registers

theorem Cpu.step_of_wideWords {text : Bytes} {s : Cpu} {opcode : UInt8} {base : WideBase}
    {dst : Register} {c : Cell} {v : UInt64} (kind : Opcode.ofByte opcode = .wide base)
    (cell : dst.cell? = some c) (h : Text.HasWords text s.pc (Instruction.wideWords opcode dst v))
    (lookup : Lookup) :
    s.step (.ofText text lookup) =
      .next { s with registers := s.registers.set c (base.address + v), pc := s.pc + 2 } := by
  have first := h.getElem?_ofText (k := 0) rfl lookup
  have second := h.getElem?_ofText (k := 1) rfl lookup
  rw [Nat.add_zero, Instruction.decode_encode] at first
  rw [Instruction.decode_encode] at second
  rw [step_of_wide first kind second cell, Instruction.wideImm_halves v rfl rfl]

/-- Words and instructions determine each other, assembled words are fetched from their slots, and a
double-width load puts the value it was written for, counted from its base, into its register. -/
theorem Instruction.encoding_exact :
    (∀ w, encode (decode w) = w) ∧
      (∀ opcode dst src offset imm,
        let i := decode (encode (ofFields opcode dst src offset imm))
        i.opcode = opcode ∧ i.dst.val = dst.toNat % 16 ∧ i.src.val = src.toNat % 16 ∧
          i.offset = offset ∧ i.imm = imm) ∧
      (∀ (words : List UInt64) (k : Nat) (inside : k < words.length),
        Text.word (Text.assemble words) k = words[k] ∧
          Text.fetch (Text.assemble words) k = decode words[k]) ∧
      ∀ (text : Bytes) (lookup : Lookup) (s : Cpu) (opcode : UInt8) (base : Nat) (dst : Register)
        (below : dst.val < 11) (v : UInt64),
        (opcode, base) ∈ [(0x18, 0), (0xb8, 0x100000000), (0xd8, 0x200000000)] →
        Text.HasWords text s.pc (wideWords opcode dst v) →
        ∃ s', s.step (.ofText text lookup) = .next s' ∧
          (s'.registers.get ⟨dst.val, below⟩).toNat = (base + v.toNat) % 2 ^ 64 ∧
          (∀ c : Cell, c.val ≠ dst.val → s'.registers.get c = s.registers.get c) ∧
          s'.pc = s.pc + 2 ∧ s'.budget = s.budget ∧ s'.world = s.world := by
  refine ⟨encode_decode, ?_, ?_, ?_⟩
  · intro opcode dst src offset imm
    rw [decode_encode]
    exact ⟨rfl, rfl, rfl, rfl, rfl⟩
  · intro words k inside
    have stands := Text.word_assemble (List.getElem?_eq_getElem inside)
    exact ⟨stands, by rw [Text.fetch, stands]⟩
  · intro text lookup s opcode base dst below v listed words
    have cell : dst.cell? = some ⟨dst.val, below⟩ := dif_pos below
    obtain ⟨wide, kind, address⟩ :
        ∃ wide : WideBase, Opcode.ofByte opcode = .wide wide ∧ wide.address.toNat = base := by
      simp only [List.mem_cons, List.not_mem_nil, or_false, Prod.mk.injEq] at listed
      rcases listed with ⟨rfl, rfl⟩ | ⟨rfl, rfl⟩ | ⟨rfl, rfl⟩
      · exact ⟨.absolute, rfl, rfl⟩
      · exact ⟨.data, rfl, rfl⟩
      · exact ⟨.rodata, rfl, rfl⟩
    refine ⟨_, Cpu.step_of_wideWords kind cell words lookup, ?_, ?_, rfl, rfl, rfl⟩
    · rw [Registers.get_set_self, UInt64.toNat_add, address]
    · intro c other
      exact Registers.get_set_of_ne fun same => other (congrArg Fin.val same)

theorem Instruction.encoding_exact_between :
    let words := wideWords 0xd8 3 0xfffffffe80000001
    let text := Text.assemble ([0x00000007000000b7] ++ words ++ [0x0000000000000095])
    let host : Surroundings := ⟨.inMemory 16, .silent, 0⟩
    let s : Cpu := ⟨.initial 7 0, 1, .ofLimit 5, ⟨.blank, none, host⟩⟩
    Verifier.verify (fun code => (noSyscalls code).isSome) false text = .ok () ∧
      ∃ s', s.step (.ofText text noSyscalls) = .next s' ∧
        (s'.registers.get ⟨3, by decide⟩).toNat = 0x0000000080000001 ∧
        s'.registers.get .first = 7 ∧ s'.pc = 3 := by
  intro words text host s
  refine ⟨by decide +kernel, ?_⟩
  obtain ⟨s', step, loaded, kept, next, -, -⟩ := encoding_exact.2.2.2 text noSyscalls s 0xd8
    0x200000000 3 (by decide) 0xfffffffe80000001 (by simp)
    (Text.hasWords_assemble [0x00000007000000b7] words [0x0000000000000095])
  exact ⟨s', step, loaded, kept .first (by decide), next⟩

end BytecodeVm
