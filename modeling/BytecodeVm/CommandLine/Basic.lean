import BytecodeVm.CommandLine.Tool

/-! The command line as a whole: words in, exit code and texts out. -/
namespace BytecodeVm.CommandLine

def toolName : String := "femtovm"

def versionLine : String := toolName ++ " 0.1.0 (dev)\n"

def usageLine : String := "Usage: " ++ toolName ++ " [flags] <container>"

inductive Ending
  | success
  | failure (e : ToolError)
  | misuse (message : String)

namespace Ending

def exitCode : Ending → Nat
  | .success => 0
  | .failure _ => 1
  | .misuse _ => 2

/-- What the tool has to say in the end. Of a misuse only the first line counts. -/
def message : Ending → Option String
  | .success => none
  | .failure e => some e.message
  | .misuse message => (message.splitOn "\n").head?

end Ending

structure Outcome where
  output : Bytes
  ending : Ending
  files : FileTree

inductive Request
  | help
  | version
  | run (options : Options) (path : String)
  | misuse (message : String)

def Request.ofWords (words : List String) : Request :=
  match parseFlags Options.flags .standard words with
  | .error e =>
    match e.message with
    | none => .help
    | some message => .misuse message
  | .ok (o, operands) =>
    if o.showVersion then .version
    else match operands with
      | [path] => .run o path
      | _ => .misuse usageLine

def Request.answer (z : Codec) (walk : Settings.Walk) (files : FileTree) : Request → Outcome
  | .help => ⟨Bytes.zeros 0, .success, files⟩
  | .version => ⟨Bytes.ofText versionLine, .success, files⟩
  | .misuse message => ⟨Bytes.zeros 0, .misuse message, files⟩
  | .run o path =>
    let report := runFile z walk files o path
    let ending := match report.error with
      | none => .success
      | some e => .failure e
    ⟨report.output, ending, report.files⟩

def call (z : Codec) (walk : Settings.Walk) (files : FileTree) (words : List String) : Outcome :=
  (Request.ofWords words).answer z walk files

end BytecodeVm.CommandLine
