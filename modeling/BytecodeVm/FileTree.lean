import BytecodeVm.Bytes

/-! Trees of files and directories, and how a path leads through one. A path is walked name by
name, so each directory that it passes has to be there, also one that it leaves again. -/
namespace BytecodeVm

/-- Where a walk starts: in the working directory, at the root, or some levels above the
working directory, where only the directories themselves are known. -/
inductive Anchor
  | work
  | root
  | above (levels : Nat)
deriving DecidableEq

structure Location where
  anchor : Anchor
  names : List String
deriving DecidableEq

namespace Location

def start (path : String) : Location :=
  ⟨if path.toList.head? = some '/' then .root else .work, []⟩

def child (l : Location) (name : String) : Location := { l with names := l.names ++ [name] }

def parent (l : Location) : Location :=
  if l.names.isEmpty then
    match l.anchor with
    | .work => ⟨.above 1, []⟩
    | .above levels => ⟨.above (levels + 1), []⟩
    -- the root is its own parent
    | .root => l
  else { l with names := l.names.dropLast }

def stays (name : String) : Bool := name.isEmpty || name == "."

def move (l : Location) (name : String) : Location :=
  if stays name then l else if name = ".." then l.parent else l.child name

def path (l : Location) : String :=
  (match l.anchor with
    | .work => ""
    | .root => "/"
    | .above levels => String.join (List.replicate levels "../")) ++ "/".intercalate l.names

end Location

/-- The names of a path. A slash at an end of the path leaves an empty name there. -/
def pathNames (path : String) : List String := path.splitOn "/"

/-- Adds a name to a path in its shortest form: a step up takes the last name away. -/
def cleanName (rooted : Bool) (names : List String) (name : String) : List String :=
  if Location.stays name then names
  else if name = ".." then
    match names.getLast? with
    | some last => if last = ".." then names ++ [name] else names.dropLast
    | none => if rooted then [] else [name]
  else names ++ [name]

def parentPath (path : String) : String :=
  let rooted := path.toList.head? == some '/'
  let names := (pathNames path).dropLast.foldl (cleanName rooted) []
  if rooted then "/" ++ "/".intercalate names
  else if names.isEmpty then "."
  else "/".intercalate names

inductive PathError
  | missing
  | directory
  | notDirectory
  | occupied
  | nameTooLong
deriving DecidableEq

def PathError.text : PathError → String
  | .missing => "no such file or directory"
  | .directory => "is a directory"
  | .notDirectory => "not a directory"
  | .occupied => "file exists"
  | .nameTooLong => "file name too long"

inductive FileNode
  | file (bytes : Bytes)
  | directory

structure FileTree where
  nodes : List (Location × FileNode)

namespace FileTree

def nameLimit : Nat := 255
def pathLimit : Nat := 4095

def empty : FileTree := ⟨[]⟩

def node? (t : FileTree) (l : Location) : Option FileNode :=
  if l.names.isEmpty then some .directory else t.nodes.lookup l

def put (t : FileTree) (l : Location) (n : FileNode) : FileTree :=
  ⟨(l, n) :: t.nodes.filter fun entry => entry.1 != l⟩

/-- Follows one name of a path. Only a directory can be left by a name, even by one that
stays in it. -/
def step (t : FileTree) (l : Location) (name : String) : Except PathError Location :=
  match t.node? l with
  | none => .error .missing
  | some (.file _) => .error .notDirectory
  | some .directory =>
    if nameLimit < name.utf8ByteSize then .error .nameTooLong
    else if (t.node? (l.move name)).isSome then .ok (l.move name)
    else .error .missing

def walk (t : FileTree) (l : Location) (names : List String) : Except PathError Location :=
  names.foldlM t.step l

def checkPath (path : String) : Except PathError Unit :=
  if path.isEmpty then .error .missing
  else if pathLimit < path.utf8ByteSize then .error .nameTooLong
  else .ok ()

def find (t : FileTree) (path : String) : Except PathError Location := do
  checkPath path
  t.walk (.start path) (pathNames path)

def read (t : FileTree) (path : String) : Except PathError Bytes := do
  match t.node? (← t.find path) with
  | some (.file bytes) => return bytes
  | some .directory => .error .directory
  | none => .error .missing

def fileAt (t : FileTree) (path : String) : Except PathError Location := do
  checkPath path
  let names := pathNames path
  let home ← t.walk (.start path) names.dropLast
  let name := names.getLast?.getD ""
  match t.step home name with
  | .ok l =>
    match t.node? l with
    | some (.file _) => return l
    | _ => .error .directory
  | .error .missing => return home.move name
  | .error e => .error e

structure MakeError where
  path : String
  reason : PathError

/-- Makes the directories that are missing on a walk from `l`; `done` is the part of the path
that is behind. The tree that it answers with has those that were made. -/
def makeFrom (t : FileTree) (l : Location) (done : String) :
    (names : List String) → FileTree × Option MakeError
  | [] => (t, none)
  | name :: names =>
    let part := done ++ name
    let shown := if names.isEmpty then part else part ++ "/"
    match t.step l name with
    | .ok next =>
      match t.node? next with
      | some (.file _) => (t, some ⟨shown, .occupied⟩)
      | _ => makeFrom t next (part ++ "/") names
    | .error .missing => makeFrom (t.put (l.move name) .directory) (l.move name) (part ++ "/") names
    | .error reason => (t, some ⟨shown, reason⟩)

def makeDirectories (t : FileTree) (path : String) : FileTree × Option MakeError :=
  match checkPath path, t.read path with
  | .error reason, _ => (t, some ⟨path, reason⟩)
  | .ok (), .ok _ => (t, some ⟨path, .notDirectory⟩)
  | .ok (), .error .directory => (t, none)
  | .ok (), .error _ => t.makeFrom (.start path) "" (pathNames path)

def addFile (t : FileTree) (path : String) (bytes : Bytes) : FileTree :=
  let (t, _) := t.makeDirectories (parentPath path)
  match t.fileAt path with
  | .ok l => t.put l (.file bytes)
  | .error _ => t

/-- The tree with the given files and with what every system has at its root. -/
def ofFiles (files : List (String × Bytes)) : FileTree :=
  let system : FileTree :=
    ⟨[(⟨.root, ["dev", "null"]⟩, .file (Bytes.zeros 0)), (⟨.root, ["dev"]⟩, .directory),
      (⟨.root, ["tmp"]⟩, .directory)]⟩
  files.foldl (fun t (path, bytes) => t.addFile path bytes) system

end FileTree

end BytecodeVm
