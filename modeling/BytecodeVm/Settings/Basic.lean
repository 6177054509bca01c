import BytecodeVm.Instance

/-! Settings of the command-line tool, and what has to hold of them. -/
namespace BytecodeVm

inductive LogLevel
  | debug
  | info
  | warn
  | error
  | dpanic
  | panic
  | fatal
deriving DecidableEq

namespace LogLevel

def all : List LogLevel := [.debug, .info, .warn, .error, .dpanic, .panic, .fatal]

def name : LogLevel → String
  | .debug => "debug"
  | .info => "info"
  | .warn => "warn"
  | .error => "error"
  | .dpanic => "dpanic"
  | .panic => "panic"
  | .fatal => "fatal"

/-- The small form of a letter, as far as the name of a level can need it: the capital `I`
with a dot is an `i` too. -/
def small (c : Char) : Char := if c.toNat = 0x130 then 'i' else c.toLower

/-- The level with a name, in small or capital letters. No name stands for the level `info`. -/
def ofName? (text : String) : Option LogLevel :=
  match String.ofList (text.toList.map small) with
  | "" => some .info
  | "warning" => some .warn
  | name => all.find? fun level => level.name == name

def enabled (level : LogLevel) : List LogLevel := all.dropWhile (· != level)

end LogLevel

structure RunSettings where
  stackSize : Int
  branchLimit : UInt32
  noReturn : Bool
  maxDataSize : UInt64
  localCapacity : Int
  extensions : Bool

structure StoreSettings where
  backend : String
  path : String
  capacity : Int
  syncWrites : Bool

structure LogSettings where
  level : String
  format : String

structure Settings where
  vm : RunSettings
  store : StoreSettings
  log : LogSettings

inductive Backend
  | memory
  | keyspace
  | bucket
deriving DecidableEq

namespace Backend

def all : List Backend := [.memory, .keyspace, .bucket]

def name : Backend → String
  | .memory => "memory"
  | .keyspace => "badger"
  | .bucket => "bolt"

def ofName? (text : String) : Option Backend := all.find? fun b => b.name == text

def isPersistent (b : Backend) : Bool := b != .memory

end Backend

def unknownLevelMessage (text : String) : String := "unrecognized level: " ++ Quoted.text text

inductive SettingsProblem
  | stackSize (size : Int)
  | branchLimit
  | pathMissing (backend : Backend)
  | unknownBackend (name : String)
  | unknownLevel (name : String)
  | unknownFormat (name : String)

def SettingsProblem.message : SettingsProblem → String
  | .stackSize size => "vm.stack_size must be positive, got " ++ Numeral.signed size
  | .branchLimit => "vm.branch_limit must be positive"
  | .pathMissing backend => "store.path is required for the " ++ backend.name ++ " backend"
  | .unknownBackend name => "unknown store.backend " ++ Quoted.text name
  | .unknownLevel name => "log.level: " ++ unknownLevelMessage name
  | .unknownFormat name => "unknown log.format " ++ Quoted.text name

namespace Settings

def standard : Settings where
  vm := {
    stackSize := InstanceConfig.standard.stackSize
    branchLimit := InstanceConfig.standard.branchLimit
    noReturn := false
    maxDataSize := InstanceConfig.standard.maxDataSize
    localCapacity := InstanceConfig.standard.localCapacity
    extensions := true }
  store := ⟨Backend.memory.name, "", defaultStoreCapacity, false⟩
  log := ⟨LogLevel.info.name, "console"⟩

def storeProblems (s : StoreSettings) : List SettingsProblem :=
  match Backend.ofName? s.backend with
  | none => [.unknownBackend s.backend]
  | some backend =>
    if backend.isPersistent && s.path.isEmpty then [.pathMissing backend] else []

/-- All that is wrong with the settings, in the order of the sections. -/
def problems (s : Settings) : List SettingsProblem :=
  (if s.vm.stackSize ≤ 0 then [.stackSize s.vm.stackSize] else []) ++
  (if s.vm.branchLimit = 0 then [.branchLimit] else []) ++
  storeProblems s.store ++
  (if (LogLevel.ofName? s.log.level).isNone then [.unknownLevel s.log.level] else []) ++
  (if s.log.format ≠ "console" ∧ s.log.format ≠ "json" then [.unknownFormat s.log.format] else [])

def problemsText (problems : List SettingsProblem) : String :=
  "\n".intercalate (problems.map (·.message))

def instanceConfig (s : Settings) : InstanceConfig where
  stackSize := s.vm.stackSize
  branchLimit := s.vm.branchLimit
  noReturn := s.vm.noReturn
  maxDataSize := s.vm.maxDataSize
  localCapacity := s.vm.localCapacity
  locals := none

def enabledLevels (s : Settings) : Except String (List LogLevel) :=
  match LogLevel.ofName? s.log.level with
  | some level => .ok level.enabled
  | none => .error (unknownLevelMessage s.log.level)

end Settings

end BytecodeVm
