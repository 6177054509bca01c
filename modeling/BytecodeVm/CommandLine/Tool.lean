import BytecodeVm.CommandLine.Flag
import BytecodeVm.Container
import BytecodeVm.Listing
import BytecodeVm.Machine
import BytecodeVm.Settings.Globals
import BytecodeVm.Settings.Load
import BytecodeVm.Text.Printable

/-! The tool: it reads a container, verifies it and runs it one or more times against a global
store. Options that are set take precedence over the settings file. The files around the tool come
in as a tree, and go out as one with what was written. -/
namespace BytecodeVm.CommandLine

/-! ## Options -/

structure Options where
  settingsFile : String
  stackSize : Option Int
  branchLimit : Option Nat
  noReturn : Option Bool
  backend : Option String
  storePath : Option String
  logLevel : Option String
  argument : String
  runs : Int
  verifyOnly : Bool
  listOnly : Bool
  showVersion : Bool

namespace Options

def standard : Options where
  settingsFile := ""
  stackSize := none
  branchLimit := none
  noReturn := none
  backend := none
  storePath := none
  logLevel := none
  argument := ""
  runs := 1
  verifyOnly := false
  listOnly := false
  showVersion := false

def flags : Flags Options :=
  [("config", .text fun t o => { o with settingsFile := t }),
   ("stack", .integer fun n o => { o with stackSize := some n }),
   ("branches", .natural fun n o => { o with branchLimit := some n }),
   ("no-return", .switch fun b o => { o with noReturn := some b }),
   ("store", .text fun t o => { o with backend := some t }),
   ("store-path", .text fun t o => { o with storePath := some t }),
   ("ctx", .text fun t o => { o with argument := t }),
   ("runs", .integer fun n o => { o with runs := n }),
   ("verify", .switch fun b o => { o with verifyOnly := b }),
   ("dump", .switch fun b o => { o with listOnly := b }),
   ("log-level", .text fun t o => { o with logLevel := some t }),
   ("version", .switch fun b o => { o with showVersion := b })]

/-- Settings with the options on top. A branch limit keeps its low 32 bits. -/
def override (o : Options) (s : Settings) : Settings where
  vm := { s.vm with
    stackSize := o.stackSize.getD s.vm.stackSize
    branchLimit := (o.branchLimit.map UInt32.ofNat).getD s.vm.branchLimit
    noReturn := o.noReturn.getD s.vm.noReturn }
  store := { s.store with
    backend := o.backend.getD s.store.backend
    path := o.storePath.getD s.store.path }
  log := { s.log with level := o.logLevel.getD s.log.level }

end Options

/-! ## Runs -/

inductive ToolError
  | settings (path : String) (e : SettingsError)
  | invalid (problems : List SettingsProblem)
  | container (e : FileError)
  | store (backend : String) (e : OpenError)
  | load (e : LoadError)
  | verify (e : RunError)
  | argument (e : Hex.Error)
  | execution (e : RunError)

def ToolError.message : ToolError → String
  | .settings path e => e.message path
  | .invalid problems => Settings.problemsText problems
  | .container e => e.message
  | .store backend e => "open " ++ backend ++ " store: " ++ e.message
  | .load e => e.message
  | .verify e => "verify: " ++ ResultCode.name e.code ++ ": " ++ e.message
  | .argument e => "decode -ctx: " ++ e.message
  | .execution e => "execution failed: " ++ e.message

structure Report where
  output : Bytes
  error : Option ToolError
  files : FileTree

def Options.base (o : Options) (walk : Settings.Walk) (files : FileTree) :
    Except ToolError Settings :=
  if o.settingsFile.isEmpty then .ok .standard
  else match Settings.load walk (files.read o.settingsFile).toOption with
    | .ok s => .ok s
    | .error e => .error (.settings o.settingsFile e)

def Options.settings (o : Options) (walk : Settings.Walk) (files : FileTree) :
    Except ToolError Settings := do
  let s := o.override (← o.base walk files)
  if s.problems.isEmpty then return s else .error (.invalid s.problems)

def Options.argumentBytes (o : Options) : Except ToolError (Option Bytes) :=
  if o.argument.isEmpty then .ok none
  else match Hex.decode (Bytes.ofText o.argument).toList with
    | .ok bytes => .ok (some (Bytes.ofList bytes))
    | .error e => .error (.argument e)

def printLine (m : Machine) (line : String) : Machine :=
  { m with console.written := m.console.written ++ Bytes.ofText (line ++ "\n") }

def runLine (number : Nat) (r : MachineRun) : String :=
  "run " ++ Numeral.decimal number ++ ": result=" ++ Numeral.signed r.result.toInt ++ " error=" ++
    ResultCode.name r.machine.lastCode

/-- Runs the container `left` times, from the run with the given number on. All runs share
the argument buffer. -/
def runTimes (shared : Store) : (left number : Nat) → Machine → Option Bytes →
    Machine × Option Bytes
  | 0, _, m, argument => (m, argument)
  | left + 1, number, m, argument =>
    let r := m.execute shared argument
    runTimes r.shared left (number + 1) (printLine r.machine (runLine number r))
      (argument.map fun _ => r.argument)

def runLoaded (o : Options) (image : Container) (m : Machine) (inst : Instance) (shared : Store) :
    Machine × Option ToolError :=
  match inst.verify m.registry.lookup with
  | .error e => (m, some (.verify e))
  | .ok inst =>
    let m := { m with inst := some inst }
    if o.verifyOnly then (printLine m (image.digest.text ++ ": " ++ ResultCode.name 0), none)
    else match o.argumentBytes with
      | .error e => (m, some e)
      | .ok argument =>
        let (m, argument) := runTimes shared o.runs.toNat 1 m argument
        let left := (argument.getD (Bytes.zeros 0)).toList
        let m := if left.isEmpty then m else printLine m ("ctx: " ++ Numeral.hexBytes left)
        (m, m.lastError.map .execution)

def runContainer (o : Options) (s : Settings) (image : Container) (globals : Store) :
    Machine × Option ToolError :=
  let fresh := Machine.create s.instanceConfig (.standard s.vm.extensions) (some globals)
  match fresh.load (some image) s.vm.stackSize with
  | (some e, m) => (m, some (.load e))
  | (none, m) =>
    match m.inst with
    | none => (m, none)
    | some inst => runLoaded o image m inst globals

def runFile (z : Codec) (walk : Settings.Walk) (files : FileTree) (o : Options) (path : String) :
    Report :=
  let failed (files : FileTree) (e : ToolError) : Report := ⟨Bytes.zeros 0, some e, files⟩
  match o.settings walk files with
  | .error e => failed files e
  | .ok s =>
    match Container.readFile z files path with
    | .error e => failed files (.container e)
    | .ok image =>
      if o.listOnly then
        let lines := (Text.listing image.text).map (· ++ "\n")
        ⟨Bytes.ofText (String.join lines), none, files⟩
      else
        match Settings.openGlobals s.store files with
        | (files, .error e) => failed files (.store s.store.backend e)
        | (files, .ok globals) =>
          let (m, error) := runContainer o s image globals.store
          ⟨m.console.written, error, files.keep globals.home (m.globals.getD globals.store)⟩

end BytecodeVm.CommandLine
