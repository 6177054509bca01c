import BytecodeVm.Hash.Blake3
import BytecodeVm.Hash.Keccak
import BytecodeVm.Printf.Format
import BytecodeVm.Syscall.Basic

/-! The built-in host functions. A call with arguments that cannot be used changes nothing
and answers with the failure value; only the console can end the run. -/
namespace BytecodeVm.Builtin

/-- The answer to arguments that cannot be used: minus one as a signed number. -/
def failure : UInt64 := 0xffffffffffffffff

def reject (w : World) : Reply × World := (.value failure, w)

def maxFormat : Nat := 256

def printf : Handler := fun w a =>
  match CString.read w.memory a.r1 maxFormat with
  | .error _ => reject w
  | .ok text =>
    match Printf.format w.memory text [a.r2, a.r3, a.r4, a.r5] with
    | .error _ => reject w
    | .ok out =>
      match w.host.console.write out with
      | .error e => (.error (.output e), w)
      | .ok console => (.value (UInt64.ofNat out.length), { w with host.console := console })

def memcpy : Handler := fun w a =>
  if a.r3 = 0 then (.value 0, w)
  else match w.memory.locate a.r1 a.r3 .write with
    | .error _ => reject w
    | .ok place =>
      -- all bytes are read before one is written, so an overlap does no harm
      match w.memory.read a.r2 a.r3 with
      | .error _ => reject w
      | .ok bytes => (.value 0, { w with memory := w.memory.put place bytes })

def store (scope : StoreScope) : Handler := fun w a =>
  match w.store scope with
  | none => reject w
  | some s =>
    match s.update a.r1.toUInt32 a.r2.toUInt32 with
    | .error _ => reject w
    | .ok s => (.value 0, w.setStore scope s)

def fetch (scope : StoreScope) : Handler := fun w a =>
  match w.store scope with
  | none => reject w
  | some s =>
    -- an address that cannot be written must not leave a new key in the store
    match w.memory.locate a.r2 4 .write with
    | .error _ => reject w
    | .ok place =>
      match s.fetch a.r1.toUInt32 with
      | .error _ => reject w
      | .ok (value, s) =>
        let bytes := Bytes.ofList (LittleEndian.ofNat 4 value.toNat)
        (.value 0, { w.setStore scope s with memory := w.memory.put place bytes })

/-- The low 32 bits of the clock in milliseconds. -/
def nowMs : Handler := fun w _ =>
  (.value (UInt64.ofNat ((w.host.clock.tdiv 1000000).emod 4294967296).toNat), w)

def hash (digest : Bytes → List UInt8) : Handler := fun w a =>
  -- the address of an empty input is not looked at
  match if a.r2 = 0 then .ok (Bytes.zeros 0) else w.memory.read a.r1 a.r2 with
  | .error _ => reject w
  | .ok input =>
    match w.memory.locate a.r3 32 .write with
    | .error _ => reject w
    | .ok place =>
      (.value 0, { w with memory := w.memory.put place (Bytes.ofList (digest input)) })

def standard : List (UInt32 × String × Handler) := [
  (0x01, "bpf_printf", printf),
  (0x02, "bpf_memcpy", memcpy),
  (0x10, "bpf_store_global", store .process),
  (0x11, "bpf_store_local", store .perInstance),
  (0x12, "bpf_fetch_global", fetch .process),
  (0x13, "bpf_fetch_local", fetch .perInstance),
  (0x20, "bpf_now_ms", nowMs)]

def hashing : List (UInt32 × String × Handler) := [
  (0x30, "bpf_blake3", hash Blake3.digest),
  (0x31, "bpf_keccak256", hash Keccak.digest)]

end BytecodeVm.Builtin
