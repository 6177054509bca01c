import BytecodeVm.Region
import BytecodeVm.Store

/-! Host functions. They see and change the memory and the local store of the calling instance and
the surroundings it shares with other calls. Called with five register values, they answer with a
value, an error that ends the run, or a panic. -/
namespace BytecodeVm

structure Console where
  written : Bytes
  failure : Option HostError

structure Surroundings where
  globals : Store
  console : Console
  /-- A monotonic clock in nanoseconds. -/
  clock : Int

structure World where
  memory : RegionTable
  /-- Missing while the instance is not set up. -/
  locals : Option Store
  host : Surroundings

namespace Console

def silent : Console := ⟨Bytes.zeros 0, none⟩

def write (c : Console) (bytes : List UInt8) : Except HostError Console :=
  match c.failure with
  | some reason => .error reason
  | none => .ok { c with written := c.written ++ Bytes.ofList bytes }

end Console

namespace World

def store (w : World) : StoreScope → Option Store
  | .perInstance => w.locals
  | .process => some w.host.globals

def setStore (w : World) (scope : StoreScope) (s : Store) : World :=
  match scope with
  | .perInstance => { w with locals := some s }
  | .process => { w with host.globals := s }

end World

open Numeral

structure Arguments where
  r1 : UInt64
  r2 : UInt64
  r3 : UInt64
  r4 : UInt64
  r5 : UInt64
deriving DecidableEq

inductive CallError
  | unknown (code : UInt32)
  | output (e : HostError)
  | memory (e : MemoryError)
  | host (e : HostError)
deriving DecidableEq

namespace CallError

def message : CallError → String
  | .unknown code => Fault.illegalCall.message ++ ": unknown syscall 0x" ++ hex code.toNat
  | .output e => "printf output: " ++ e.message
  | .memory e => e.message
  | .host e => e.message

def cause : CallError → Option Cause
  | .unknown _ => some (.fault .illegalCall)
  | .memory e => Failure.cause e
  | .output e | .host e => e.cause

def fault? (e : CallError) : Option Fault := e.cause.bind Cause.fault?

instance : Failure CallError := ⟨message, cause⟩

end CallError

inductive Reply
  | value (r0 : UInt64)
  | error (e : CallError)
  | panic (text : String)
deriving DecidableEq

abbrev Handler := World → Arguments → Reply × World

abbrev Lookup := UInt32 → Option Handler

def noSyscalls : Lookup := fun _ => none

end BytecodeVm
