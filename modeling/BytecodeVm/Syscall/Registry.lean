import BytecodeVm.Syscall.Builtin

/-! The registry of host functions. A code keeps its function for good: functions are only
ever added. -/
namespace BytecodeVm

open Numeral

structure Syscall where
  code : UInt32
  name : String
  handler : Handler

inductive RegistryError
  | noHandler
  | duplicate (code : UInt32) (name : String)
deriving DecidableEq

def RegistryError.message : RegistryError → String
  | .noHandler => "nil syscall handler"
  | .duplicate code name =>
    "syscall code already registered: 0x" ++ hex code.toNat ++ " (" ++ name ++ ")"

instance : Failure RegistryError := { message := RegistryError.message }

structure Registry where
  syscalls : List Syscall

namespace Registry

def standard (hashing : Bool) : Registry :=
  let all := Builtin.standard ++ if hashing then Builtin.hashing else []
  ⟨all.map fun (code, name, handler) => ⟨code, name, handler⟩⟩

def find? (r : Registry) (code : UInt32) : Option Syscall :=
  r.syscalls.find? (·.code == code)

def lookup (r : Registry) : Lookup := fun code => (r.find? code).map (·.handler)

theorem mem_of_lookup {r : Registry} {code : UInt32} {handler : Handler}
    (h : r.lookup code = some handler) : ∃ s ∈ r.syscalls, s.handler = handler := by
  obtain ⟨s, found, rfl⟩ := Option.map_eq_some_iff.mp h
  exact ⟨s, List.mem_of_find?_eq_some found, rfl⟩

theorem forall_mem_standard {P : Handler → Prop} (printf : P Builtin.printf)
    (memcpy : P Builtin.memcpy) (store : ∀ scope, P (Builtin.store scope))
    (fetch : ∀ scope, P (Builtin.fetch scope)) (nowMs : P Builtin.nowMs)
    (blake3 : P (Builtin.hash Blake3.digest)) (keccak : P (Builtin.hash Keccak.digest))
    (hashing : Bool) : ∀ s ∈ (standard hashing).syscalls, P s.handler := by
  have plain : ∀ f ∈ Builtin.standard, P f.2.2 := by
    simp only [Builtin.standard, List.forall_mem_cons]
    exact ⟨printf, memcpy, store _, store _, fetch _, fetch _, nowMs, nofun⟩
  have hashes : ∀ f ∈ Builtin.hashing, P f.2.2 := by
    simp only [Builtin.hashing, List.forall_mem_cons]
    exact ⟨blake3, keccak, nofun⟩
  intro s member
  obtain ⟨f, listed, rfl⟩ := List.mem_map.mp member
  rcases List.mem_append.mp listed with listed | listed
  · exact plain f listed
  · cases hashing with
    | true => exact hashes f listed
    | false => cases listed

def name? (r : Registry) (code : UInt32) : Option String := (r.find? code).map (·.name)

def register (r : Registry) (code : UInt32) (name : String) (handler : Option Handler) :
    Except RegistryError Registry :=
  match handler with
  | none => .error .noHandler
  | some handler =>
    match r.find? code with
    | some s => .error (.duplicate code s.name)
    | none => .ok ⟨r.syscalls ++ [⟨code, name, handler⟩]⟩

def codes (r : Registry) : List UInt32 :=
  (r.syscalls.map (·.code)).mergeSort fun a b => decide (a ≤ b)

end Registry

end BytecodeVm
