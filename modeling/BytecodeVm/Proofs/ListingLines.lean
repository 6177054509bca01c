import BytecodeVm.Listing
import BytecodeVm.Proofs.LinearScan
import BytecodeVm.Proofs.Numerals

/-! What the lines of a listing say. A line names an operation and those fields of an
instruction that the operation works with. Its text gives all of them back, since the first word
tells the operations apart and every field behind it is legible; so a listing determines what
its lines say, one after the other. -/
namespace BytecodeVm

open Numeral

inductive Operand
  | immediate (v : Int32)
  | register (r : Register)
deriving DecidableEq

namespace Operand

def source : Operand → Source
  | .immediate _ => .immediate
  | .register _ => .register

def text : Operand → String
  | .immediate v => signed v.toInt
  | .register r => Instruction.register r

end Operand

def Instruction.second (i : Instruction) : Source → Operand
  | .immediate => .immediate i.imm
  | .register => .register i.src

theorem Instruction.source_second (i : Instruction) (source : Source) :
    (i.second source).source = source := by
  cases source <;> rfl

theorem Instruction.text_second (i : Instruction) (source : Source) :
    (i.second source).text = i.renderOperand source := by
  cases source <;> rfl

def AluOp.all : List AluOp :=
  [.add, .sub, .mul, .div, .or, .and, .lsh, .rsh, .neg, .mod, .xor, .mov, .arsh]

def Condition.all : List Condition :=
  [.always, .eq, .gt, .ge, .set, .ne, .sgt, .sge, .lt, .le, .slt, .sle]

def AccessSize.all : List AccessSize := [.byte, .half, .word, .double]

inductive Mnemonic
  | unknown
  | alu (width : AluWidth) (op : AluOp)
  | load (size : AccessSize)
  | store (source : Source) (size : AccessSize)
  | exit
  | call
  | jump (c : Condition)
  | wide (base : WideBase)
deriving DecidableEq

namespace Mnemonic

def text : Mnemonic → String
  | .unknown => "unknown"
  | .alu width op => op.name ++ width.suffixText
  | .load size => "ldx" ++ size.suffixText
  | .store .immediate size => "st" ++ size.suffixText
  | .store .register size => "stx" ++ size.suffixText
  | .exit => "exit"
  | .call => "call"
  | .jump c => c.name
  | .wide base => base.mnemonic

def all : List Mnemonic :=
  List.flatten
    [[.unknown, .exit, .call, .wide .absolute, .wide .data, .wide .rodata],
      AluOp.all.map (alu .low32), AluOp.all.map (alu .full64), AccessSize.all.map load,
      AccessSize.all.map (store .immediate), AccessSize.all.map (store .register),
      Condition.all.map jump]

def read (word : String) : Option Mnemonic := all.find? fun m => m.text == word

theorem read_text (m : Mnemonic) : read m.text = some m := by
  cases m with
  | unknown | exit | call => decide
  | alu width op => cases width <;> cases op <;> decide
  | load size => cases size <;> decide
  | store source size => cases source <;> cases size <;> decide
  | jump c => cases c <;> decide
  | wide base => cases base <;> decide

theorem text_inj {m m' : Mnemonic} (same : m.text = m'.text) : m = m' := by
  have known := congrArg read same
  rwa [read_text, read_text, Option.some.injEq] at known

theorem no_space_text (m : Mnemonic) : ∀ c ∈ m.text.toList, (c != ' ') = true := by
  have each : all.all (fun m => m.text.toList.all (· != ' ')) = true := rfl
  exact List.all_eq_true.mp
    (List.all_eq_true.mp each m (List.mem_of_find?_eq_some (read_text m)))

end Mnemonic

inductive Line
  | unknown (i : Instruction)
  | negate (width : AluWidth) (dst : Register)
  | compute (width : AluWidth) (op : AluOp) (dst : Register) (second : Operand)
  | load (size : AccessSize) (dst src : Register) (offset : Int16)
  | store (size : AccessSize) (dst : Register) (offset : Int16) (second : Operand)
  | exit
  | call (code : UInt32)
  | jump (offset : Int16)
  | branch (c : Condition) (dst : Register) (second : Operand) (offset : Int16)
  | wide (base : WideBase) (dst : Register) (value : UInt64)
deriving DecidableEq

namespace Line

def mnemonic : Line → Mnemonic
  | .unknown _ => .unknown
  | .negate width _ => .alu width .neg
  | .compute width op _ _ => .alu width op
  | .load size _ _ _ => .load size
  | .store size _ _ second => .store second.source size
  | .exit => .exit
  | .call _ => .call
  | .jump _ => .jump .always
  | .branch c _ _ _ => .jump c
  | .wide base _ _ => .wide base

def fields : Line → String
  | .unknown i =>
    " 0x" ++ (hexByte i.opcode ++ (" dst=" ++ (Instruction.register i.dst ++ (" src=" ++
      (Instruction.register i.src ++ (" off=" ++ (signed i.offset.toInt ++ (" imm=" ++
        signed i.imm.toInt))))))))
  | .negate _ dst => " " ++ Instruction.register dst
  | .compute _ _ dst second => " " ++ (Instruction.register dst ++ (", " ++ second.text))
  | .load _ dst src offset =>
    " " ++ (Instruction.register dst ++ (", " ++ Instruction.address src offset))
  | .store _ dst offset second =>
    " " ++ (Instruction.address dst offset ++ (", " ++ second.text))
  | .exit => ""
  | .call code => " 0x" ++ hex code.toNat
  | .jump offset => " " ++ withSign offset.toInt
  | .branch _ dst second offset =>
    " " ++ (Instruction.register dst ++ (", " ++ (second.text ++ (", " ++ withSign offset.toInt))))
  | .wide _ dst value => " " ++ (Instruction.register dst ++ (", 0x" ++ hex value.toNat))

def text (l : Line) : String := l.mnemonic.text ++ l.fields

def ofAlu (i : Instruction) (width : AluWidth) (op : AluOp) (source : Source) : Line :=
  if op = .neg then
    match source with
    | .immediate => .negate width i.dst
    | .register => .unknown i
  else .compute width op i.dst (i.second source)

def ofJump (i : Instruction) (c : Condition) (source : Source) : Line :=
  if c = .always then
    match source with
    | .immediate => .jump i.offset
    | .register => .unknown i
  else .branch c i.dst (i.second source) i.offset

/-- What the line of an instruction says, given the word behind it. -/
def ofInstruction (i : Instruction) (next : Option Instruction) : Line :=
  match i.kind with
  | .alu width op source => ofAlu i width op source
  | .jump c source => ofJump i c source
  | .unknownAlu | .unknownJump | .undefined => .unknown i
  | .call => .call i.uimm
  | .exit => .exit
  | .wide base =>
    .wide base i.dst (match next with
      | some high => i.wideImm high
      | none => i.uimm.toUInt64)
  | .load size => .load size i.dst i.src i.offset
  | .storeImmediate size => .store size i.dst i.offset (i.second .immediate)
  | .storeRegister size => .store size i.dst i.offset (i.second .register)

def kind : Line → Opcode
  | .unknown i => i.kind
  | .negate width _ => .alu width .neg .immediate
  | .compute width op _ second => .alu width op second.source
  | .load size _ _ _ => .load size
  | .store size _ _ (.immediate _) => .storeImmediate size
  | .store size _ _ (.register _) => .storeRegister size
  | .exit => .exit
  | .call _ => .call
  | .jump _ => .jump .always .immediate
  | .branch c _ second _ => .jump c second.source
  | .wide base _ _ => .wide base

theorem kind_ofInstruction (i : Instruction) (next : Option Instruction) :
    (ofInstruction i next).kind = i.kind := by
  unfold ofInstruction
  cases known : i.kind with
  | alu width op source =>
    dsimp only [ofAlu]
    split
    · rename_i negates
      cases source <;> simp [kind, known, negates]
    · rw [kind, Instruction.source_second]
  | jump c source =>
    dsimp only [ofJump]
    split
    · rename_i always
      cases source <;> simp [kind, known, always]
    · rw [kind, Instruction.source_second]
  | unknownAlu | unknownJump | undefined => exact known
  | call | exit | wide | load | storeImmediate | storeRegister => rfl

theorem renderUnknown_eq (i : Instruction) : i.renderUnknown = (unknown i).text := by
  have first (rest : String) : "unknown 0x" ++ rest = "unknown" ++ (" 0x" ++ rest) := by
    rw [← String.append_assoc]
    rfl
  unfold Instruction.renderUnknown
  simp only [text, mnemonic, Mnemonic.text, fields, String.append_assoc, first]

theorem render_of_alu {i : Instruction} {width : AluWidth} {op : AluOp} {source : Source}
    (kind : i.kind = .alu width op source) : i.render = (ofAlu i width op source).text := by
  unfold ofAlu
  split
  · rename_i negates
    subst negates
    cases source with
    | immediate =>
      simp [Instruction.render, kind, text, mnemonic, Mnemonic.text, fields, AluOp.name,
        String.append_assoc]
    | register =>
      rw [← renderUnknown_eq]
      simp only [Instruction.render, kind]
  · rename_i other
    simp [Instruction.render, kind, other, text, mnemonic, Mnemonic.text, fields,
      Instruction.text_second, String.append_assoc]

theorem render_of_jump {i : Instruction} {c : Condition} {source : Source}
    (kind : i.kind = .jump c source) : i.render = (ofJump i c source).text := by
  unfold ofJump
  split
  · rename_i always
    subst always
    cases source with
    | immediate =>
      simp only [Instruction.render, kind]
      rw [show "ja " = "ja" ++ " " from rfl, String.append_assoc]
      rfl
    | register =>
      rw [← renderUnknown_eq]
      simp only [Instruction.render, kind]
  · rename_i other
    simp [Instruction.render, kind, other, text, mnemonic, Mnemonic.text, fields,
      Instruction.text_second, String.append_assoc]

theorem renderWide_eq {i : Instruction} {base : WideBase} (kind : i.kind = .wide base)
    (high : Instruction) : i.renderWide base high = (ofInstruction i (some high)).text := by
  simp only [Instruction.renderWide, ofInstruction, kind, text, mnemonic, Mnemonic.text, fields,
    String.append_assoc]

theorem render_eq (i : Instruction) : i.render = (ofInstruction i none).text := by
  unfold ofInstruction
  cases kind : i.kind with
  | alu width op source => exact render_of_alu kind
  | jump c source => exact render_of_jump kind
  | unknownAlu | unknownJump | undefined =>
    rw [← renderUnknown_eq]
    simp only [Instruction.render, kind]
  | call =>
    simp only [Instruction.render, kind]
    rw [show "call 0x" = "call" ++ " 0x" from rfl, String.append_assoc]
    rfl
  | exit => simp [Instruction.render, kind, text, mnemonic, Mnemonic.text, fields]
  | wide base =>
    simp only [Instruction.render, kind, text, mnemonic, Mnemonic.text, fields,
      String.append_assoc]
    simp
  | load size =>
    simp only [Instruction.render, kind, text, mnemonic, Mnemonic.text, fields,
      String.append_assoc]
  | storeImmediate size =>
    simp only [Instruction.render, kind, text, mnemonic, Mnemonic.text, fields,
      String.append_assoc, Instruction.second, Operand.source, Operand.text]
  | storeRegister size =>
    simp only [Instruction.render, kind, text, mnemonic, Mnemonic.text, fields,
      String.append_assoc, Instruction.second, Operand.source, Operand.text]

end Line

theorem legible_register : Legible Instruction.register :=
  (legible_decimal.comp Fin.val_inj.mp).marked "r"

theorem legible_offset : Legible fun offset : Int16 => withSign offset.toInt :=
  legible_withSign.comp Int16.toInt_inj.mp

theorem legible_address :
    Legible fun a : Register × Int16 => Instruction.address a.1 a.2 := by
  intro a b s t _ _ same
  simp only [Instruction.address, String.append_assoc, String.append_right_inj] at same
  obtain ⟨base, same⟩ := legible_register (closes_withSign _ _) (closes_withSign _ _) same
  obtain ⟨offset, same⟩ := legible_offset (closes_append _ rfl) (closes_append _ rfl) same
  exact ⟨Prod.ext base offset, (String.append_right_inj _).mp same⟩

theorem legible_immediate : Legible fun v : Int32 => signed v.toInt :=
  legible_signed.comp Int32.toInt_inj.mp

theorem signed_ne_register (v : Int) (r : Register) (s t : String) :
    signed v ++ s ≠ Instruction.register r ++ t := by
  intro same
  cases v with
  | ofNat n =>
    refine not_closes_decimal n s (same ▸ ?_)
    rw [Instruction.register, String.append_assoc]
    exact closes_append _ rfl
  | negSucc n =>
    have first := congrArg (·.toList.head?) same
    simp [signed, Instruction.register, String.toList_append] at first

theorem legible_operand : Legible Operand.text := by
  intro a b s t closed closed' same
  cases a with
  | immediate v =>
    cases b with
    | immediate v' =>
      obtain ⟨rfl, rest⟩ := legible_immediate closed closed' same
      exact ⟨rfl, rest⟩
    | register r' => exact absurd same (signed_ne_register v.toInt r' s t)
  | register r =>
    cases b with
    | immediate v' => exact absurd same.symm (signed_ne_register v'.toInt r t s)
    | register r' =>
      obtain ⟨rfl, rest⟩ := legible_register closed closed' same
      exact ⟨rfl, rest⟩

namespace Line

theorem legible_unknown :
    Legible fun f : UInt8 × Register × Register × Int16 × Int32 =>
      " 0x" ++ (hexByte f.1 ++ (" dst=" ++ (Instruction.register f.2.1 ++ (" src=" ++
        (Instruction.register f.2.2.1 ++ (" off=" ++ (signed f.2.2.2.1.toInt ++ (" imm=" ++
          signed f.2.2.2.2.toInt)))))))) :=
  (legible_hexByte.pair (legible_register.pair (legible_register.pair
    ((legible_signed.comp Int16.toInt_inj.mp).pair legible_immediate " imm=" rfl)
      " off=" rfl) " src=" rfl) " dst=" rfl).marked " 0x"

theorem legible_compute :
    Legible fun f : Register × Operand =>
      " " ++ (Instruction.register f.1 ++ (", " ++ f.2.text)) :=
  (legible_register.pair legible_operand ", " rfl).marked " "

theorem legible_load :
    Legible fun f : Register × Register × Int16 =>
      " " ++ (Instruction.register f.1 ++ (", " ++ Instruction.address f.2.1 f.2.2)) :=
  (legible_register.pair legible_address ", " rfl).marked " "

theorem legible_store :
    Legible fun f : (Register × Int16) × Operand =>
      " " ++ (Instruction.address f.1.1 f.1.2 ++ (", " ++ f.2.text)) :=
  (legible_address.pair legible_operand ", " rfl).marked " "

theorem legible_branch :
    Legible fun f : Register × Operand × Int16 =>
      " " ++ (Instruction.register f.1 ++ (", " ++ (f.2.1.text ++ (", " ++
        withSign f.2.2.toInt)))) :=
  (legible_register.pair (legible_operand.pair legible_offset ", " rfl) ", " rfl).marked " "

theorem legible_wide :
    Legible fun f : Register × UInt64 =>
      " " ++ (Instruction.register f.1 ++ (", 0x" ++ hex f.2.toNat)) :=
  (legible_register.pair (legible_hex.comp UInt64.toNat_inj.mp) ", 0x" rfl).marked " "

theorem fields_negate_ne_fields_compute {width width' : AluWidth} {op : AluOp}
    {dst dst' : Register} {second : Operand} :
    (negate width dst).fields ≠ (compute width' op dst' second).fields := by
  intro same
  have behind : Instruction.register dst ++ "" =
      Instruction.register dst' ++ (", " ++ second.text) := by
    rw [String.append_empty]
    exact (String.append_right_inj " ").mp same
  have rest := (legible_register closes_empty (closes_append _ rfl) behind).2
  have first := congrArg (·.toList.head?) rest
  simp [String.toList_append] at first

theorem fields_jump_ne_fields_branch {c : Condition} {dst : Register} {second : Operand}
    {offset offset' : Int16} :
    (jump offset).fields ≠ (branch c dst second offset').fields := by
  intro same
  rw [fields, fields, String.append_right_inj] at same
  have first := congrArg (·.toList.head?) same
  cases sign : offset.toInt with
  | ofNat n =>
    rw [sign, withSign_ofNat] at first
    simp [Instruction.register, String.toList_append] at first
  | negSucc n =>
    rw [sign, withSign_negSucc] at first
    simp [signed, Instruction.register, String.toList_append] at first

theorem space_of_fields (l : Line) : ∀ c ∈ l.fields.toList.head?, (c != ' ') = false := by
  cases l <;> simp [fields, String.toList_append]

theorem parts_of_text {l l' : Line} (same : l.text = l'.text) :
    l.mnemonic = l'.mnemonic ∧ l.fields = l'.fields := by
  rw [text, text, ← String.toList_inj, String.toList_append, String.toList_append] at same
  obtain ⟨word, rest⟩ := append_inj_of_forall l.mnemonic.no_space_text l'.mnemonic.no_space_text
    l.space_of_fields l'.space_of_fields same
  exact ⟨Mnemonic.text_inj (String.toList_inj.mp word), String.toList_inj.mp rest⟩

theorem text_inj {l l' : Line} (same : l.text = l'.text) : l = l' := by
  obtain ⟨word, rest⟩ := parts_of_text same
  cases l with
  | unknown i =>
    cases l' with
    | unknown j =>
      obtain ⟨opcode, dst, src, offset, imm⟩ := i
      obtain ⟨opcode', dst', src', offset', imm'⟩ := j
      cases legible_unknown.injective (a := (opcode, dst, src, offset, imm))
        (b := (opcode', dst', src', offset', imm')) rest
      rfl
    | _ => cases word
  | negate width dst =>
    cases l' with
    | negate width' dst' =>
      cases word
      cases (legible_register.marked " ").injective (a := dst) (b := dst') rest
      rfl
    | compute => exact absurd rest fields_negate_ne_fields_compute
    | _ => cases word
  | compute width op dst second =>
    cases l' with
    | negate => exact absurd rest.symm fields_negate_ne_fields_compute
    | compute width' op' dst' second' =>
      cases word
      cases legible_compute.injective (a := (dst, second)) (b := (dst', second')) rest
      rfl
    | _ => cases word
  | load size dst src offset =>
    cases l' with
    | load size' dst' src' offset' =>
      cases word
      cases legible_load.injective (a := (dst, src, offset)) (b := (dst', src', offset')) rest
      rfl
    | _ => cases word
  | store size dst offset second =>
    cases l' with
    | store size' dst' offset' second' =>
      cases legible_store.injective (a := ((dst, offset), second))
        (b := ((dst', offset'), second')) rest
      cases word
      rfl
    | _ => cases word
  | exit =>
    cases l' with
    | exit => rfl
    | _ => cases word
  | call code =>
    cases l' with
    | call code' =>
      cases ((legible_hex.comp UInt32.toNat_inj.mp).marked " 0x").injective (a := code)
        (b := code') rest
      rfl
    | _ => cases word
  | jump offset =>
    cases l' with
    | jump offset' =>
      cases (legible_offset.marked " ").injective (a := offset) (b := offset') rest
      rfl
    | branch => exact absurd rest fields_jump_ne_fields_branch
    | _ => cases word
  | branch c dst second offset =>
    cases l' with
    | jump => exact absurd rest.symm fields_jump_ne_fields_branch
    | branch c' dst' second' offset' =>
      cases word
      cases legible_branch.injective (a := (dst, second, offset))
        (b := (dst', second', offset')) rest
      rfl
    | _ => cases word
  | wide base dst value =>
    cases l' with
    | wide base' dst' value' =>
      cases word
      cases legible_wide.injective (a := (dst, value)) (b := (dst', value')) rest
      rfl
    | _ => cases word

def width (l : Line) : Nat :=
  match l.kind with
  | .wide _ => 2
  | _ => 1

theorem width_ofInstruction (i : Instruction) (next : Option Instruction) :
    (ofInstruction i next).width = i.width := by
  rw [width, Instruction.width, Instruction.isWide, kind_ofInstruction]
  cases i.kind <;> rfl

theorem ofInstruction_of_narrow {i : Instruction} (narrow : i.isWide = false)
    (next : Option Instruction) : ofInstruction i next = ofInstruction i none := by
  unfold ofInstruction
  cases kind : i.kind with
  | wide base => simp [Instruction.isWide, kind] at narrow
  | _ => rfl

end Line

namespace Text

def lines : List Instruction → List Line
  | [] => []
  | i :: rest => .ofInstruction i rest.head? :: lines (rest.drop (i.width - 1))
termination_by code => code.length
decreasing_by
  rw [List.length_drop, List.length_cons]
  omega

def numberedFrom (pc : Nat) : List Line → List String
  | [] => []
  | l :: rest => numbered pc l.text :: numberedFrom (pc + l.width) rest

theorem numberedFrom_lines (pc : Nat) (code : List Instruction) :
    numberedFrom pc (lines code) = listFrom pc code := by
  induction pc, code using listFrom.induct with
  | case1 pc => rw [lines, numberedFrom, listFrom]
  | case2 pc i =>
    rw [lines, numberedFrom, listFrom, List.drop_nil, lines, numberedFrom, Line.render_eq]
    rfl
  | case3 pc i j rest base kind ih =>
    have wide : i.width = 2 :=
      Instruction.width_of_isWide (by simp [Instruction.isWide, kind])
    rw [lines, numberedFrom, Line.width_ofInstruction, wide]
    simp only [listFrom, kind, List.head?_cons, Nat.add_one_sub_one, List.drop_succ_cons,
      List.drop_zero, ih, Line.renderWide_eq kind]
  | case4 pc i j rest kind ih =>
    have narrow : i.isWide = false := by
      unfold Instruction.isWide
      split
      · rename_i base wide
        exact absurd wide (kind base)
      · rfl
    have one : listFrom pc (i :: j :: rest) =
        numbered pc i.render :: listFrom (pc + 1) (j :: rest) := by
      rw [listFrom]
      split
      · rename_i base wide
        exact absurd wide (kind base)
      · rfl
    rw [one, lines, numberedFrom, Line.width_ofInstruction, Instruction.width_of_not_isWide narrow,
      Line.ofInstruction_of_narrow narrow, ← Line.render_eq, Nat.sub_self, List.drop_zero, ih]

theorem numberedFrom_inj {pc : Nat} {ls ls' : List Line}
    (same : numberedFrom pc ls = numberedFrom pc ls') : ls = ls' := by
  induction ls generalizing pc ls' with
  | nil =>
    cases ls' with
    | nil => rfl
    | cons l' ls' => cases same
  | cons l ls ih =>
    cases ls' with
    | nil => cases same
    | cons l' ls' =>
      simp only [numberedFrom, List.cons.injEq, numbered, String.append_right_inj] at same
      obtain rfl := Line.text_inj same.1
      rw [ih same.2]

theorem lines_of_listing {a b : Bytes} (whole : a.size % slotSize = 0)
    (whole' : b.size % slotSize = 0) (same : listing a = listing b) :
    lines (instructions a) = lines (instructions b) := by
  simp only [listing, whole, whole', if_true, List.append_nil, ← numberedFrom_lines] at same
  exact numberedFrom_inj same

end Text

end BytecodeVm
