import BytecodeVm.Fault
import BytecodeVm.Instruction

/-! The verifier: one pass over the text before it runs. Every instruction must use
registers that exist, a double-width load needs its second word, a call must be known and a
jump must stay in the text and off the second words; at the end stands an exit, unless the
text may be left by its end. -/
namespace BytecodeVm

open Numeral

inductive VerifyError
  | length (bytes : Nat)
  | register (pc : Nat) (dst src : Register)
  | wideAtEnd (pc : Nat)
  | unknownCall (pc : Nat) (code : UInt32)
  | jumpOutside (pc : Nat) (target : Int) (slots : Nat)
  | jumpInside (pc : Nat) (second : Int)
  | noExit (pc : Nat)
deriving DecidableEq

namespace VerifyError

def fault : VerifyError → Fault
  | .length _ => .illegalLength
  | .register .. => .illegalRegister
  | .wideAtEnd _ => .illegalInstruction
  | .unknownCall .. => .illegalCall
  | .jumpOutside .. | .jumpInside .. => .illegalJump
  | .noExit _ => .noReturn

def pc : VerifyError → Nat
  | .length _ => 0
  | .register pc _ _ => pc
  | .wideAtEnd pc => pc
  | .unknownCall pc _ => pc
  | .jumpOutside pc _ _ => pc
  | .jumpInside pc _ => pc
  | .noExit pc => pc

def detail : VerifyError → String
  | .length bytes => "text is " ++ decimal bytes ++ " bytes"
  | .register _ dst src => "dst=r" ++ decimal dst.val ++ " src=r" ++ decimal src.val
  | .wideAtEnd _ => "double-width load in final slot"
  | .unknownCall _ code => "unknown syscall 0x" ++ hex code.toNat
  | .jumpOutside _ target slots =>
    "target " ++ signed target ++ " outside " ++ decimal slots ++ " slots"
  | .jumpInside _ second => "lands inside double-width load at " ++ signed second
  | .noExit _ => "last instruction is not exit"

def message (e : VerifyError) : String :=
  e.fault.message ++ " at pc " ++ decimal e.pc ++ ": " ++ e.detail

end VerifyError

namespace Verifier

def registerCount : Nat := 11

/-- A jump and the slot before the one it lands on. -/
structure Jump where
  source : Nat
  target : Int
deriving DecidableEq

structure Survey where
  jumps : List Jump
  /-- The slots that hold the second words of double-width loads. -/
  seconds : List Nat
deriving DecidableEq

def survey (known : UInt32 → Bool) : (pc : Nat) → List Instruction → Except VerifyError Survey
  | _, [] => .ok ⟨[], []⟩
  | pc, i :: rest =>
    if registerCount ≤ i.dst.val ∨ registerCount ≤ i.src.val then
      .error (.register pc i.dst i.src)
    else match i.kind with
      | .wide _ =>
        match rest with
        | [] => .error (.wideAtEnd pc)
        | _ :: rest => do
          let s ← survey known (pc + 2) rest
          return { s with seconds := (pc + 1) :: s.seconds }
      | .call =>
        if known i.uimm then survey known (pc + 1) rest else .error (.unknownCall pc i.uimm)
      | .jump _ _ | .unknownJump => do
        let s ← survey known (pc + 1) rest
        return { s with jumps := ⟨pc, pc + i.offset.toInt⟩ :: s.jumps }
      | _ => survey known (pc + 1) rest

def checkJumps (slots : Nat) (seconds : List Nat) : List Jump → Except VerifyError Unit
  | [] => .ok ()
  | j :: rest =>
    if j.target < 0 ∨ slots ≤ j.target then .error (.jumpOutside j.source j.target slots)
    else if seconds.contains (j.target.toNat + 1) then
      .error (.jumpInside j.source (j.target + 1))
    else checkJumps slots seconds rest

def endsInExit (text : Bytes) : Bool :=
  decide ((Text.fetch text (Text.slots text - 1)).kind = .exit)

/-- `openEnd` says that the text may be left by its end. -/
def verify (known : UInt32 → Bool) (openEnd : Bool) (text : Bytes) : Except VerifyError Unit :=
  let slots := Text.slots text
  if text.size = 0 ∨ text.size % Text.slotSize ≠ 0 then .error (.length text.size)
  else do
    let s ← survey known 0 (Text.instructions text)
    checkJumps slots s.seconds s.jumps
    if openEnd || endsInExit text then .ok () else .error (.noExit (slots - 1))

end Verifier

end BytecodeVm
