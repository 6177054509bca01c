import BytecodeVm.Bytes
import BytecodeVm.Fault

/-! Memory as a program sees it: regions of bytes at fixed addresses, each with its permissions, and
the ordered table that resolves an address range. The first region that holds the whole range
decides. A string in memory ends before its first zero byte. -/
namespace BytecodeVm

open Numeral

structure Permission where
  bits : UInt8
deriving DecidableEq

namespace Permission

def none : Permission := ⟨0⟩
def read : Permission := ⟨1⟩
def write : Permission := ⟨2⟩
def execute : Permission := ⟨4⟩
def readWrite : Permission := ⟨3⟩

def allows (p access : Permission) : Bool := p.bits &&& access.bits == access.bits

def text (p : Permission) : String :=
  (if p.bits &&& read.bits = 0 then "-" else "r") ++
    (if p.bits &&& write.bits = 0 then "-" else "w") ++
    (if p.bits &&& execute.bits = 0 then "-" else "x")

end Permission

inductive MemoryError
  | overflow (addr size : UInt64)
  | denied (access : Permission) (region : String) (addr size : UInt64)
  | unmapped (addr size : UInt64)
deriving DecidableEq

namespace MemoryError

def place (addr size : UInt64) : String :=
  "0x" ++ hex addr.toNat ++ " (size " ++ decimal size.toNat ++ ")"

def message (e : MemoryError) : String :=
  Fault.illegalMemory.message ++ ": " ++ match e with
    | .overflow addr size => "range overflow at " ++ place addr size
    | .denied access region addr size =>
      access.text ++ " access to " ++ region ++ " region at " ++ place addr size
    | .unmapped addr size => "unmapped address " ++ place addr size

instance : Failure MemoryError := ⟨message, fun _ => some (.fault .illegalMemory)⟩

end MemoryError

structure Region where
  name : String
  start : UInt64
  bytes : Bytes
  permission : Permission

namespace Region

def blank : Region := ⟨"", 0, Bytes.zeros 0, Permission.none⟩

def length (r : Region) : UInt64 := UInt64.ofNat r.bytes.size

def stop (r : Region) : UInt64 := r.start + r.length

def holds (r : Region) (addr size : UInt64) : Bool :=
  -- in this order no subtraction wraps around
  decide (r.start ≤ addr) &&
    decide (addr - r.start ≤ r.length) &&
    decide (size ≤ r.length - (addr - r.start))

end Region

structure RegionTable where
  stack : Region
  data : Region
  rodata : Region
  /-- Regions mapped by the host, the newest first. -/
  extensions : List Region
  argument : Region

inductive MappingError
  | notSetUp
  | overflow (name : String) (start : UInt64) (length : Nat)
  | tooMany
deriving DecidableEq

def notSetUpMessage : String := "vm: instance not set up"

def MappingError.message : MappingError → String
  | .notSetUp => notSetUpMessage
  | .overflow name start length =>
    "vm: region end overflows address space: " ++ name ++ " at 0x" ++ hex start.toNat ++
      " (len " ++ decimal length ++ ")"
  | .tooMany => "vm: too many extension regions"

instance : Failure MappingError where
  message := MappingError.message
  cause
    | .notSetUp => some .notProvisioned
    | .overflow .. | .tooMany => none

def roomAfter (addr : UInt64) : UInt64 := ~~~addr

namespace RegionTable

def dataBase : UInt64 := 0x100000000
def rodataBase : UInt64 := 0x200000000
def stackBase : UInt64 := 0x300000000
def argumentBase : UInt64 := 0x400000000

def maxExtensions : Nat := 4

def blank : RegionTable := ⟨.blank, .blank, .blank, [], .blank⟩

def fresh (stack data rodata : Bytes) : RegionTable where
  stack := ⟨"stack", stackBase, stack, .readWrite⟩
  data := ⟨"data", dataBase, data, .readWrite⟩
  rodata := ⟨"rodata", rodataBase, rodata, .read⟩
  extensions := []
  argument := ⟨"arg", argumentBase, Bytes.zeros 0, .none⟩

def toList (t : RegionTable) : List Region :=
  t.stack :: t.data :: t.rodata :: (t.extensions ++ [t.argument])

def get? (t : RegionTable) (i : Nat) : Option Region := t.toList[i]?

def modifyBytes (t : RegionTable) (i : Nat) (f : Bytes → Bytes) : RegionTable :=
  match i with
  | 0 => { t with stack.bytes := f t.stack.bytes }
  | 1 => { t with data.bytes := f t.data.bytes }
  | 2 => { t with rodata.bytes := f t.rodata.bytes }
  | i + 3 =>
    if i < t.extensions.length then
      { t with extensions := t.extensions.modify i fun r => { r with bytes := f r.bytes } }
    else if i = t.extensions.length then { t with argument.bytes := f t.argument.bytes }
    else t

def add (t : RegionTable) (r : Region) : Except MappingError RegionTable :=
  if roomAfter r.start < r.length then .error (.overflow r.name r.start r.bytes.size)
  else if t.extensions.length = maxExtensions then .error .tooMany
  else .ok { t with extensions := r :: t.extensions }

/-- Where an address range lies: the place of its region in the list and the offset in it. -/
structure Place where
  index : Nat
  offset : Nat
deriving DecidableEq

def locate (t : RegionTable) (addr size : UInt64) (access : Permission) :
    Except MemoryError Place :=
  if roomAfter addr < size then .error (.overflow addr size)
  else match t.toList.findIdx? (·.holds addr size) with
    | none => .error (.unmapped addr size)
    | some i =>
      let r := (t.get? i).getD .blank
      if r.permission.allows access then .ok ⟨i, (addr - r.start).toNat⟩
      else .error (.denied access r.name addr size)

def resolve (t : RegionTable) (addr size : UInt64) (access : Permission) :
    Except MemoryError Bytes := do
  let place ← t.locate addr size access
  return ((t.get? place.index).getD .blank).bytes.slice place.offset size.toNat

def read (t : RegionTable) (addr size : UInt64) : Except MemoryError Bytes :=
  t.resolve addr size .read

def put (t : RegionTable) (place : Place) (bytes : Bytes) : RegionTable :=
  t.modifyBytes place.index (·.overwrite place.offset bytes)

def write (t : RegionTable) (addr : UInt64) (bytes : Bytes) : Except MemoryError RegionTable := do
  let place ← t.locate addr (UInt64.ofNat bytes.size) .write
  return t.put place bytes

def load (t : RegionTable) (addr : UInt64) (size : Nat) : Except MemoryError UInt64 := do
  let bytes ← t.read addr (UInt64.ofNat size)
  return UInt64.ofNat (LittleEndian.toNat bytes.toList)

def store (t : RegionTable) (addr : UInt64) (size : Nat) (x : UInt64) :
    Except MemoryError RegionTable :=
  t.write addr (Bytes.ofList (LittleEndian.ofNat size x.toNat))

end RegionTable

inductive StringError
  | memory (e : MemoryError)
  | wraps
deriving DecidableEq

def StringError.message : StringError → String
  | .memory e => e.message
  | .wraps => "string runs past the end of the address space"

instance : Failure StringError where
  message := StringError.message
  cause
    | .memory e => Failure.cause e
    | .wraps => none

namespace CString

def readFrom (t : RegionTable) (addr : UInt64) : (left i : Nat) → Except StringError (List UInt8)
  | 0, _ => .ok []
  | left + 1, i =>
    let a := addr + UInt64.ofNat i
    if a < addr then .error .wraps
    else match t.load a 1 with
      | .error e => .error (.memory e)
      | .ok c => if c = 0 then .ok [] else (readFrom t addr left (i + 1)).map (c.toUInt8 :: ·)

/-- The string at `addr`, cut after `max` bytes. -/
def read (t : RegionTable) (addr : UInt64) (max : Nat) : Except StringError (List UInt8) :=
  readFrom t addr max 0

end CString

end BytecodeVm
