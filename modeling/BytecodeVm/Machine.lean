import BytecodeVm.Instance
import BytecodeVm.Syscall.Registry

/-! Machines: a host's view of one container at a time. A machine loads a container, runs it
and remembers why the last run failed. Its host functions work on a global store that is its
own or the one that all machines of the process share. -/
namespace BytecodeVm

inductive LoadError
  | container (e : ContainerError)
  | setup (e : SetupError)
deriving DecidableEq

def LoadError.message (e : LoadError) : String :=
  "load container: " ++ match e with
    | .container e => e.message
    | .setup e => e.message

instance : Failure LoadError where
  message := LoadError.message
  cause
    | .container e => Failure.cause e
    | .setup e => Failure.cause e

inductive LocalError
  | notLoaded
  | store (e : StoreError)
deriving DecidableEq

def LocalError.message : LocalError → String
  | .notLoaded => "host: no container loaded"
  | .store e => e.message

instance : Failure LocalError := { message := LocalError.message }

structure Machine where
  config : InstanceConfig
  registry : Registry
  /-- A global store of the machine's own; without one it uses the shared store. -/
  globals : Option Store
  console : Console
  clock : Int
  image : Option Container
  inst : Option Instance
  /-- The stack that an unloaded container left behind, with its bytes. -/
  spare : Bytes
  lastError : Option RunError

structure MachineRun where
  result : Int64
  machine : Machine
  shared : Store
  argument : Bytes

namespace Machine

def failedResult : Int64 := -1

def unloadedResult : Int64 := Int64.ofInt ResultCode.noMemory

def create (config : InstanceConfig) (registry : Registry) (globals : Option Store) : Machine where
  config := config
  registry := registry
  globals := globals
  console := .silent
  clock := 0
  image := none
  inst := none
  spare := Bytes.zeros 0
  lastError := none

def isLoaded (m : Machine) : Bool := m.inst.isSome

def unload (m : Machine) : Machine :=
  match m.inst with
  | none => { m with image := none, lastError := none }
  | some inst =>
    let inst := inst.destroy
    { m with
      config.locals := inst.config.locals
      image := none
      inst := none
      spare := inst.stack
      lastError := none }

/-- A stack of the given size: the spare one, cleared, if it has that size. -/
def provideStack (m : Machine) (size : Nat) : Bytes :=
  if m.spare.size = size then m.spare.clear else Bytes.zeros size

/-- Loads a container on a stack of the given size, after unloading. A size that is not
positive stands for the default. -/
def load (m : Machine) (image : Option Container) (stackSize : Int) :
    Option LoadError × Machine :=
  let m := m.unload
  let size : Int := if stackSize ≤ 0 then InstanceConfig.defaultStackSize else stackSize
  let stack := m.provideStack size.toNat
  match (Instance.create image (some stack) { m.config with stackSize := size }).setup with
  | .error e => (some (.setup e), { m with spare := stack })
  | .ok inst => (none, { m with image := image, inst := some inst, spare := Bytes.zeros 0 })

def loadBytes (m : Machine) (image : Bytes) (stackSize : Int) : Option LoadError × Machine :=
  match Container.parse image with
  | .error e => (some (.container e), m)
  | .ok c => m.load (some c) stackSize

def surroundings (m : Machine) (shared : Store) : Surroundings :=
  ⟨m.globals.getD shared, m.console, m.clock⟩

def finish (m : Machine) (shared : Store) (e : Execution) : MachineRun :=
  let (globals, shared) := match m.globals with
    | some _ => (some e.host.globals, shared)
    | none => (none, e.host.globals)
  let m := { m with globals := globals, console := e.host.console, inst := some e.inst }
  match e.result with
  | .ok r0 => ⟨r0, { m with lastError := none }, shared, e.argument⟩
  | .error err => ⟨failedResult, { m with lastError := some err }, shared, e.argument⟩

def executeValue (m : Machine) (shared : Store) (r1 : UInt64) : MachineRun :=
  match m.inst with
  | none => ⟨unloadedResult, { m with lastError := some .notSetUp }, shared, Bytes.zeros 0⟩
  | some inst => m.finish shared (inst.execute m.registry.lookup (m.surroundings shared) r1)

def execute (m : Machine) (shared : Store) (argument : Option Bytes) : MachineRun :=
  match argument with
  | none => m.executeValue shared 0
  | some argument =>
    match m.inst with
    | none => ⟨unloadedResult, { m with lastError := some .notSetUp }, shared, argument⟩
    | some inst =>
      m.finish shared
        (inst.executeContext m.registry.lookup (m.surroundings shared) argument)

def lastCode (m : Machine) : Int :=
  match m.lastError with
  | none => 0
  | some e => e.code

def locals (m : Machine) : Except LocalError Store :=
  match m.inst.bind (·.locals) with
  | none => .error .notLoaded
  | some s => .ok s

def setLocals (m : Machine) (s : Store) : Machine :=
  { m with inst := m.inst.map fun inst => match inst.body with
      | .idle _ => inst
      | .live memory _ => { inst with body := .live memory s } }

def localUpdate (m : Machine) (key value : UInt32) : Except LocalError Machine :=
  match m.locals with
  | .error e => .error e
  | .ok s => match s.update key value with
    | .error e => .error (.store e)
    | .ok s => .ok (m.setLocals s)

def localFetch (m : Machine) (key : UInt32) : Except LocalError (UInt32 × Machine) :=
  match m.locals with
  | .error e => .error e
  | .ok s => match s.fetch key with
    | .error e => .error (.store e)
    | .ok (value, s) => .ok (value, m.setLocals s)

def localRange (m : Machine) (count : Option Nat) : Except LocalError (List Entry) :=
  match m.locals with
  | .error e => .error e
  | .ok s => match s.range count with
    | .error e => .error (.store e)
    | .ok entries => .ok entries

def localSize (m : Machine) : Nat :=
  match m.locals with
  | .error _ => 0
  | .ok s => s.size

end Machine

end BytecodeVm
