import BytecodeVm.CommandLine.Basic
import BytecodeVm.Zstd.Frame

/-! The program: it brings in the files that a call names, answers the call, and puts back what
was written. -/
namespace BytecodeVm

open CommandLine

def readFile? (path : String) : IO (Option Bytes) :=
  try
    return some (← IO.FS.readBinFile path)
  catch _ =>
    return none

def isDirectory (path : String) : IO Bool :=
  try
    discard <| IO.FS.realPath (path ++ "/.")
    return true
  catch _ =>
    return false

def readNode? (path : String) : IO (Option FileNode) := do
  if ← isDirectory path then return some .directory
  else return (← readFile? path).map .file

def observe (t : FileTree) (path : String) : IO FileTree := do
  let mut t := t
  let mut place := Location.start path
  let mut part := ""
  for name in pathNames path do
    part := part ++ name
    place := place.move name
    if !part.isEmpty then
      match ← readNode? part with
      | some node => t := t.put place node
      | none => pure ()
    part := part ++ "/"
  return t

def databasePath? (t : FileTree) : Request → Option String
  | .run o _ =>
    match o.settings .asWritten t with
    | .ok s =>
      if (Backend.ofName? s.store.backend).any (·.isPersistent) then some s.store.path else none
    | .error _ => none
  | _ => none

def filesFor (request : Request) : IO FileTree := do
  match request with
  | .run o path =>
    let t ← observe .empty o.settingsFile
    let t ← observe t path
    match databasePath? t request with
    | some path => observe t (path ++ "/" ++ FileTree.entriesFile)
    | none => return t
  | _ => return .empty

def writeChanges (old new : FileTree) : IO Unit := do
  for (place, node) in new.nodes.reverse do
    match node, old.node? place with
    | .directory, none => IO.FS.createDirAll place.path
    | .file bytes, some (.file before) =>
      if bytes.toList != before.toList then IO.FS.writeBinFile place.path bytes
    | .file bytes, none => IO.FS.writeBinFile place.path bytes
    | _, _ => pure ()

def report (ending : Ending) : IO Unit := do
  let err ← IO.getStderr
  match ending with
  | .success => pure ()
  | .failure e => err.putStrLn (toolName ++ ": " ++ e.message)
  | .misuse message => err.putStrLn message

end BytecodeVm

open BytecodeVm CommandLine in
def main (words : List String) : IO UInt32 := do
  let request := Request.ofWords words
  let files ← filesFor request
  let outcome := request.answer Zstd.codec .asWritten files
  let out ← IO.getStdout
  out.write outcome.output
  out.flush
  writeChanges files outcome.files
  report outcome.ending
  return UInt32.ofNat outcome.ending.exitCode
