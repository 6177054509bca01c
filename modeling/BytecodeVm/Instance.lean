import BytecodeVm.Container
import BytecodeVm.Cpu.Run
import BytecodeVm.Verifier

/-! Instances: a container with its stack, its copy of the data section, its regions and its
local store. An instance is set up, run any number of times and taken down; it is verified
once, before its first run. -/
namespace BytecodeVm

open Numeral

structure InstanceConfig where
  stackSize : Int
  branchLimit : UInt32
  /-- The text may be left by its end. -/
  noReturn : Bool
  maxDataSize : UInt64
  localCapacity : Int
  /-- A local store that the caller lends in place of a fresh one. -/
  locals : Option Store

namespace InstanceConfig

def defaultStackSize : Nat := 512
def defaultMaxDataSize : UInt64 := 65536

def standard : InstanceConfig where
  stackSize := defaultStackSize
  branchLimit := BranchBudget.defaultLimit
  noReturn := false
  maxDataSize := defaultMaxDataSize
  localCapacity := defaultStoreCapacity
  locals := none

/-- A zero, or a negative stack size, stands for the default. -/
def normalized (c : InstanceConfig) : InstanceConfig :=
  { c with
    stackSize := if c.stackSize ≤ 0 then defaultStackSize else c.stackSize
    branchLimit := if c.branchLimit = 0 then BranchBudget.defaultLimit else c.branchLimit
    maxDataSize := if c.maxDataSize = 0 then defaultMaxDataSize else c.maxDataSize }

end InstanceConfig

inductive RunState
  | init
  | running
  | halted
  | faulted
deriving DecidableEq

namespace RunState

def name : RunState → String
  | .init => "init"
  | .running => "running"
  | .halted => "halted"
  | .faulted => "faulted"

/-- States are told to others by a number, which need not be one of theirs. -/
def nameOf : UInt8 → String
  | 0 => init.name
  | 1 => running.name
  | 2 => halted.name
  | 3 => faulted.name
  | _ => "unknown"

end RunState

inductive SetupError
  | noImage
  | dataTooLarge (size limit : UInt64)
deriving DecidableEq

def SetupError.message (e : SetupError) : String :=
  "vm: cannot provision data section: " ++ match e with
    | .noImage => "no image"
    | .dataTooLarge size limit =>
      "data+bss is " ++ decimal size.toNat ++ " bytes, limit " ++ decimal limit.toNat

instance : Failure SetupError := ⟨SetupError.message, fun _ => some .notProvisioned⟩

inductive RunError
  | notSetUp
  | rejected (e : VerifyError)
  | stopped (pc : Nat) (e : StepError)
deriving DecidableEq

namespace RunError

def message : RunError → String
  | .notSetUp => notSetUpMessage
  | .rejected e => e.message
  | .stopped pc e => e.message pc

def cause : RunError → Option Cause
  | .notSetUp => some .notProvisioned
  | .rejected e => some (.fault e.fault)
  | .stopped _ e => e.cause

def fault? (e : RunError) : Option Fault := e.cause.bind Cause.fault?

instance : Failure RunError := ⟨message, cause⟩

def code (e : RunError) : Int := ResultCode.of e

theorem code_eq (e : RunError) :
    e.code = match e.cause with
      | some (.fault f) => f.code
      | some .notProvisioned => ResultCode.noMemory
      | none => ResultCode.hostError := rfl

theorem code_of_fault {e : RunError} {f : Fault} (h : e.fault? = some f) : e.code = f.code := by
  obtain ⟨cause, passed, fault⟩ := Option.bind_eq_some_iff.mp h
  rw [code_eq, passed]
  cases cause with
  | fault => exact congrArg Fault.code (Option.some.inj fault)
  | notProvisioned => cases fault

end RunError

inductive Body
  /-- Not set up: only the stack is kept. -/
  | idle (stack : Bytes)
  | live (memory : RegionTable) (locals : Store)

structure Instance where
  image : Option Container
  config : InstanceConfig
  body : Body
  budget : BranchBudget
  state : RunState
  verified : Bool

structure Execution where
  result : Except RunError Int64
  inst : Instance
  host : Surroundings
  argument : Bytes

namespace Instance

/-- An instance that is not set up. Without a stack of the caller's it gets its own. -/
def create (image : Option Container) (stack : Option Bytes) (config : InstanceConfig) :
    Instance :=
  let config := config.normalized
  { image := image
    config := config
    body := .idle (stack.getD (Bytes.zeros config.stackSize.toNat))
    budget := .ofLimit config.branchLimit
    state := .init
    verified := false }

def stack (i : Instance) : Bytes :=
  match i.body with
  | .idle stack => stack
  | .live memory _ => memory.stack.bytes

def memory (i : Instance) : RegionTable :=
  match i.body with
  | .idle _ => .blank
  | .live memory _ => memory

theorem memory_of_live {i : Instance} {memory : RegionTable} {locals : Store}
    (live : i.body = .live memory locals) : i.memory = memory := by
  rw [Instance.memory, live]

def data (i : Instance) : Bytes := i.memory.data.bytes

def locals (i : Instance) : Option Store :=
  match i.body with
  | .idle _ => none
  | .live _ locals => some locals

def isSetUp (i : Instance) : Bool :=
  match i.body with
  | .idle _ => false
  | .live _ _ => true

def flags (i : Instance) : Nat :=
  (if i.isSetUp then 0x001 else 0) + (if i.verified then 0x002 else 0) +
    (if i.config.noReturn then 0x100 else 0)

def initialData (c : Container) : Bytes :=
  (Bytes.zeros c.header.mutableLen.toNat).overwrite 0 c.data

/-- Gives the instance fresh data and a fresh region table. The stack keeps its bytes, and
so does a local store that is there. -/
def setup (i : Instance) : Except SetupError Instance :=
  match i.image with
  | none => .error .noImage
  | some image =>
    let size := image.header.mutableLen
    if i.config.maxDataSize < size then .error (.dataTooLarge size i.config.maxDataSize)
    else
      let locals := match i.locals with
        | some locals => locals
        | none => i.config.locals.getD (.inMemory i.config.localCapacity)
      .ok { i with
        body := .live (.fresh i.stack (initialData image) image.rodata) locals
        state := .init }

/-- Takes the instance down. A local store that was lent goes back to the caller. -/
def destroy (i : Instance) : Instance :=
  let lent := match i.config.locals, i.locals with
    | some _, some locals => some locals
    | lent, _ => lent
  { i with
    body := .idle i.stack
    config.locals := lent
    verified := false
    state := .init }

def addRegion (i : Instance) (r : Region) : Except MappingError Instance :=
  match i.body with
  | .idle _ => .error .notSetUp
  | .live memory locals => (memory.add r).map fun memory => { i with body := .live memory locals }

def verify (i : Instance) (lookup : Lookup) : Except RunError Instance :=
  if i.verified then .ok i
  else match i.image with
    | none => .error .notSetUp
    | some image =>
      match Verifier.verify (fun code => (lookup code).isSome) i.config.noReturn image.text with
      | .error e => .error (.rejected e)
      | .ok () => .ok { i with verified := true }

theorem eq_of_verify {i j : Instance} {lookup : Lookup} (h : i.verify lookup = .ok j) :
    j = { i with verified := true } := by
  unfold verify at h
  split at h
  · rename_i verified
    cases h
    rw [← verified]
  · split at h
    · cases h
    · split at h <;> cases h
      rfl

def world (i : Instance) (host : Surroundings) : World := ⟨i.memory, i.locals, host⟩

def withWorld (i : Instance) (w : World) : Instance :=
  match i.body with
  | .idle _ => i
  | .live _ locals => { i with body := .live w.memory (w.locals.getD locals) }

def invoke (i : Instance) (host : Surroundings) (handler : Handler) (a : Arguments) :
    Reply × Instance × Surroundings :=
  let (reply, w) := handler (i.world host) a
  (reply, i.withWorld w, w.host)

def mapArgument (i : Instance) (bytes : Bytes) : Instance :=
  match i.body with
  | .idle _ => i
  | .live memory locals => { i with body := .live { memory with argument.bytes := bytes } locals }

theorem body_mapArgument {i : Instance} {memory : RegionTable} {locals : Store}
    (live : i.body = .live memory locals) (bytes : Bytes) :
    (i.mapArgument bytes).body = .live { memory with argument.bytes := bytes } locals := by
  simp only [mapArgument, live]

theorem image_mapArgument (i : Instance) (bytes : Bytes) :
    (i.mapArgument bytes).image = i.image := by
  unfold mapArgument
  split <;> rfl

def openArgument (i : Instance) : Instance :=
  match i.body with
  | .idle _ => i
  | .live memory locals =>
    { i with body := .live { memory with argument.permission := .readWrite } locals }

theorem body_openArgument {i : Instance} {memory : RegionTable} {locals : Store}
    (live : i.body = .live memory locals) :
    i.openArgument.body = .live { memory with argument.permission := .readWrite } locals := by
  simp only [openArgument, live]

theorem image_openArgument (i : Instance) : i.openArgument.image = i.image := by
  unfold openArgument
  split <;> rfl

/-- The processor before the first slot, with `r1` as argument. -/
def boot (i : Instance) (host : Surroundings) (r1 : UInt64) : Cpu where
  registers := .initial r1 (RegionTable.stackBase + UInt64.ofNat i.stack.size)
  pc := 0
  budget := i.budget.reset
  world := i.world host

def settle (i : Instance) (outcome : Outcome) (s : Cpu) :
    Except RunError Int64 × Instance × Surroundings :=
  let i := { i with budget := s.budget }.withWorld s.world
  match outcome with
  | .halted r0 => (.ok r0.toInt64, { i with state := .halted }, s.world.host)
  | .failed pc e => (.error (.stopped pc e), { i with state := .faulted }, s.world.host)

def run (i : Instance) (lookup : Lookup) (host : Surroundings) (r1 : UInt64) :
    Except RunError Int64 × Instance × Surroundings :=
  match { i with state := .init }.verify lookup with
  | .error e => (.error e, { i with state := .faulted }, host)
  | .ok i =>
    match i.image with
    | none => (.error .notSetUp, { i with state := .faulted }, host)
    | some image =>
      let i := { i with state := .running }
      let (outcome, s) := (i.boot host r1).run (.ofText image.text lookup)
      i.settle outcome s

def execute (i : Instance) (lookup : Lookup) (host : Surroundings) (r1 : UInt64) : Execution :=
  if !i.isSetUp then ⟨.error .notSetUp, i, host, Bytes.zeros 0⟩
  else
    let (result, i, host) := (i.mapArgument (Bytes.zeros 0)).run lookup host r1
    ⟨result, i, host, Bytes.zeros 0⟩

/-- Runs with a buffer as argument, which the program may change. The buffer is not mapped
any more afterwards. -/
def executeContext (i : Instance) (lookup : Lookup) (host : Surroundings) (argument : Bytes) :
    Execution :=
  if !i.isSetUp then ⟨.error .notSetUp, i, host, argument⟩
  else
    let (result, i, host) :=
      (i.mapArgument argument).openArgument.run lookup host RegionTable.argumentBase
    ⟨result, i.mapArgument (Bytes.zeros 0), host, i.memory.argument.bytes⟩

end Instance

end BytecodeVm
