import BytecodeVm.Text.Numeral

/-! Faults: the ways a program can fail, each with a stable code. Codes are negative
and zero is success; a host function may raise a fault with any code. Result codes add
two values outside the faults. -/
namespace BytecodeVm

structure Fault where
  code : Int
deriving DecidableEq

namespace Fault

def ok : Fault := ⟨0⟩
def illegalInstruction : Fault := ⟨-1⟩
def illegalMemory : Fault := ⟨-2⟩
def illegalJump : Fault := ⟨-3⟩
def illegalCall : Fault := ⟨-4⟩
def illegalLength : Fault := ⟨-5⟩
def illegalRegister : Fault := ⟨-6⟩
def noReturn : Fault := ⟨-7⟩
def outOfBranches : Fault := ⟨-8⟩
def illegalDivision : Fault := ⟨-9⟩

def known : List (Fault × String × String) := [
  (ok, "OK", "ok"),
  (illegalInstruction, "ILLEGAL_INSTRUCTION", "illegal instruction"),
  (illegalMemory, "ILLEGAL_MEM", "illegal memory access"),
  (illegalJump, "ILLEGAL_JUMP", "illegal jump"),
  (illegalCall, "ILLEGAL_CALL", "illegal call"),
  (illegalLength, "ILLEGAL_LEN", "illegal text length"),
  (illegalRegister, "ILLEGAL_REGISTER", "illegal register"),
  (noReturn, "NO_RETURN", "program does not end in exit"),
  (outOfBranches, "OUT_OF_BRANCHES", "branch budget exhausted"),
  (illegalDivision, "ILLEGAL_DIV", "division by zero")]

def name (f : Fault) : String :=
  match known.lookup f with
  | some (name, _) => name
  | none => "ERROR " ++ Numeral.signed f.code

def message (f : Fault) : String :=
  match known.lookup f with
  | some (_, message) => message
  | none => "fault " ++ Numeral.signed f.code

end Fault

/-- What an error of the host's making passes on. -/
inductive Cause
  | fault (f : Fault)
  | notProvisioned
deriving DecidableEq

structure HostError where
  message : String
  cause : Option Cause
deriving DecidableEq

def Cause.fault? : Cause → Option Fault
  | .fault f => some f
  | .notProvisioned => none

def HostError.fault? (e : HostError) : Option Fault := e.cause.bind Cause.fault?

/-- Errors of any kind: what they say, and what they pass on. -/
class Failure (ε : Type) where
  message : ε → String
  cause : ε → Option Cause := fun _ => none

instance : Failure Fault := ⟨Fault.message, fun f => some (.fault f)⟩

instance : Failure HostError := ⟨HostError.message, HostError.cause⟩

namespace ResultCode

/-- The instance could not be set up. -/
def noMemory : Int := -100

/-- A host function failed for a reason of its own. -/
def hostError : Int := -101

def of {ε : Type} [Failure ε] (e : ε) : Int :=
  match Failure.cause e with
  | some (.fault f) => f.code
  | some .notProvisioned => noMemory
  | none => hostError

def name (code : Int) : String :=
  if code = noMemory then "NO_MEMORY"
  else if code = hostError then "HOST_ERROR"
  else Fault.name ⟨code⟩

end ResultCode

end BytecodeVm
