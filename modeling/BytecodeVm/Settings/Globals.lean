import BytecodeVm.FileTree
import BytecodeVm.Settings.Basic

/-! The global store that settings describe, and the file that its database is kept in. In a file a
database is a blank page, then for each row the name of its table, its key and its value, each
behind its length. -/
namespace BytecodeVm

namespace Database

def block (bytes : List UInt8) : List UInt8 := LittleEndian.ofNat 4 bytes.length ++ bytes

/-- The blank page in front, which no container starts with. -/
def page : List UInt8 := List.replicate 64 0

def toBytes (d : Database) : Bytes :=
  Bytes.ofList (page ++ d.tables.flatMap fun (name, table) =>
    table.rows.flatMap fun (key, value) =>
      block (Bytes.ofText name).toList ++ block key ++ block value)

def blocks : (fuel : Nat) → List UInt8 → Option (List (List UInt8))
  | _, [] => some []
  | 0, _ => none
  | fuel + 1, bytes =>
    let rest := bytes.drop 4
    let length := LittleEndian.toNat (bytes.take 4)
    if bytes.length < 4 + length then none
    else (blocks fuel (rest.drop length)).map (rest.take length :: ·)

def ofBlocks (d : Database) : List (List UInt8) → Option Database
  | [] => some d
  | name :: key :: value :: rest =>
    match String.fromUTF8? (Bytes.ofList name) with
    | none => none
    | some name => ofBlocks (d.setTable name ((d.table name).insert key value)) rest
  | _ => none

def ofBytes? (bytes : Bytes) : Option Database :=
  if bytes.size = 0 then some .empty
  else if bytes.toList.take page.length = page then
    (blocks bytes.size (bytes.toList.drop page.length)).bind (ofBlocks .empty)
  else none

end Database

inductive OpenError
  | unknownBackend (name : String)
  | bucketDirectory (e : FileTree.MakeError)
  | bucketFile (path : String) (reason : PathError)
  | notDatabase
  | keyspace (path : String) (reason : PathError)
  | keyspaceDirectory (path : String) (e : FileTree.MakeError)

def OpenError.message : OpenError → String
  | .unknownBackend name => "unknown store backend " ++ Quoted.text name
  | .bucketDirectory e => "create directory: mkdir " ++ e.path ++ ": " ++ e.reason.text
  | .bucketFile path reason => "open database: open " ++ path ++ ": " ++ reason.text
  | .notDatabase => "open database: invalid database"
  | .keyspace path reason =>
    "open badger: Invalid Dir: " ++ Quoted.text path ++ " error: stat " ++ path ++ ": " ++
      reason.text
  | .keyspaceDirectory path e =>
    "open badger: Error Creating Dir: " ++ Quoted.text path ++ " error: mkdir " ++ e.path ++ ": " ++
      e.reason.text

namespace FileTree

def database? (t : FileTree) (l : Location) : Option Database :=
  match t.node? l with
  | none => some .empty
  | some (.file bytes) => Database.ofBytes? bytes
  | some .directory => none

def bucketHome (t : FileTree) (path : String) : FileTree × Except OpenError Location :=
  match t.makeDirectories (parentPath path) with
  | (t, some e) => (t, .error (.bucketDirectory e))
  | (t, none) => (t, (t.fileAt path).mapError (.bucketFile path))

def entriesFile : String := "entries"

def keyspaceHome (t : FileTree) (path : String) : FileTree × Except OpenError Location :=
  let home (l : Location) : Location := l.child entriesFile
  match t.find path with
  | .ok l =>
    match t.node? l with
    | some .directory => (t, .ok (home l))
    | _ => (t, .error (.keyspace path .notDirectory))
  | .error .missing =>
    match t.makeDirectories path with
    | (t, some e) => (t, .error (.keyspaceDirectory path e))
    | (t, none) => (t, (t.find path).map home |>.mapError (.keyspace path))
  | .error reason => (t, .error (.keyspace path reason))

end FileTree

structure Globals where
  store : Store
  home : Option Location

def FileTree.keep (t : FileTree) (home : Option Location) : Store → FileTree
  | .volatile _ => t
  | .persistent p =>
    match home with
    | none => t
    | some l => t.put l (.file p.database.toBytes)

namespace Settings

def openDatabase (t : FileTree) (layout : Layout) (capacity : Int) (l : Location) :
    Except OpenError Globals :=
  match t.database? l with
  | none => .error .notDatabase
  | some d => .ok ⟨.persistent (.openOn d layout capacity), some l⟩

/-- The tree that comes with the answer has the directories that were made, even if it is an error.
-/
def openGlobals (s : StoreSettings) (t : FileTree) : FileTree × Except OpenError Globals :=
  let backend := if s.backend.isEmpty then some .memory else Backend.ofName? s.backend
  match backend with
  | none => (t, .error (.unknownBackend s.backend))
  | some .memory => (t, .ok ⟨.inMemory s.capacity, none⟩)
  | some .keyspace =>
    let (t, home) := t.keyspaceHome s.path
    (t, home.bind (openDatabase t .keyspace s.capacity))
  | some .bucket =>
    let (t, home) := t.bucketHome s.path
    (t, home.bind (openDatabase t (.bucket "") s.capacity))

end Settings

end BytecodeVm
