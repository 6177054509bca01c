import BytecodeVm.Toml.Lexeme

/-! Building a document: every definition finds its table by the names that lead to it. A
table that only came about on the way to another, through a longer header or a key with
dots, may still be defined once; all else is defined once only. -/
namespace BytecodeVm.Toml

structure Builder where
  root : Table
  /-- The tables that were not defined for their own sake. -/
  implicits : List Key
  arrays : List Key
  /-- Headers and keys in the order of the text. -/
  order : List Key
  context : Key

namespace Builder

def empty : Builder := ⟨[], [], [], [], []⟩

/-- Sets the value of a name, at its old place if it has one. -/
def setEntry (name : String) (v : Value) : Table → Table
  | [] => [(name, v)]
  | (n, old) :: rest =>
    if n = name then (n, v) :: rest else (n, old) :: setEntry name v rest

/-- Changes the table at the end of a path. An array of tables stands for its last one. -/
def updateTable (path : Key) (f : Table → Option Table) (t : Table) : Option Table :=
  match path with
  | [] => f t
  | name :: path =>
    match t.lookup name with
    | some (.table inner) => do
      let inner ← updateTable path f inner
      return setEntry name (.table inner) t
    | some (.tables items) =>
      match items.getLast? with
      | none => none
      | some last => do
        let last ← updateTable path f last
        return setEntry name (.tables (items.dropLast ++ [last])) t
    | _ => none

def isImplicit (b : Builder) (key : Key) : Bool := b.implicits.contains key

def addImplicit (b : Builder) (key : Key) : Builder :=
  if b.isImplicit key then b else { b with implicits := key :: b.implicits }

def removeImplicit (b : Builder) (key : Key) : Builder :=
  { b with implicits := b.implicits.filter (· != key) }

def setArray (b : Builder) (key : Key) (isArray : Bool) : Builder :=
  let others := b.arrays.filter (· != key)
  { b with arrays := if isArray then key :: others else others }

/-- The key that the kind of a name's value is noted for. An empty name stands for the table
it is in, unless that is the whole document. -/
def kindKey (b : Builder) (name : String) : Key :=
  if name = "" ∧ b.context ≠ [] then b.context else b.context ++ [name]

def note (b : Builder) (key : Key) : Builder := { b with order := b.order ++ [key] }

def tableAt : (path : Key) → Table → Option Table
  | [], t => some t
  | name :: path, t =>
    match t.lookup name with
    | some (.table inner) => tableAt path inner
    | some (.tables items) => items.getLast?.bind (tableAt path)
    | _ => none

def current (b : Builder) : Option Table := tableAt b.context b.root

def hasEntry (b : Builder) (name : String) : Option Bool :=
  b.current.map fun t => (t.lookup name).isSome

def store (b : Builder) (name : String) (v : Value) : Option Builder := do
  let root ← updateTable b.context (fun t => some (setEntry name v t)) b.root
  return { b with root := root }

def define (b : Builder) (name : String) (v : Value) : Option Builder := do
  let key := b.context ++ [name]
  if ← b.hasEntry name then
    if !b.isImplicit key then none
    else if b.arrays.contains key then (b.removeImplicit key).store name v
    else some (b.removeImplicit key)
  else b.store name v

/-- Sets the value at the end of a path, through tables that are made where they are missing.
It fails where something else stands in the way. -/
def place (v : Value) : (path : Key) → Table → Option Table
  | [], _ => none
  | [name], t => some (setEntry name v t)
  | name :: path, t =>
    match t.lookup name with
    | none => do return setEntry name (.table (← place v path [])) t
    | some (.table inner) => do return setEntry name (.table (← place v path inner)) t
    | some _ => none

def makeParents (b : Builder) (done : Key) : (path : Key) → Option Builder
  | [] => some { b with context := done }
  | name :: path => do
    let b := { b with context := done }
    let next := done ++ [name]
    if ← b.hasEntry name then makeParents b next path
    else do
      let b ← (b.addImplicit next).store name (.table [])
      makeParents b next path

def appendTable (b : Builder) (name : String) : Option Builder := do
  let root ← updateTable b.context (fun t =>
    match t.lookup name with
    | none => some (setEntry name (.tables [[]]) t)
    | some (.tables items) => some (setEntry name (.tables (items ++ [[]])) t)
    | some _ => none) b.root
  return { b with root := root }

def enter (b : Builder) (key : Key) (inArray : Bool) : Option Builder :=
  match key.getLast? with
  | none => none
  | some name => do
    let b ← b.makeParents [] key.dropLast
    let b ← if inArray then b.appendTable name else b.define name (.table [])
    return { b with context := key }

def enterDotted (b : Builder) : (names : Key) → Option Builder
  | [] => some b
  | name :: names => do
    let key := b.context ++ [name]
    let b ← (b.addImplicit key).enter key false
    enterDotted b names

end Builder

end BytecodeVm.Toml
