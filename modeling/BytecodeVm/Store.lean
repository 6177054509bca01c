import BytecodeVm.Bytes
import BytecodeVm.Fault

/-! Key/value stores of 32-bit numbers. The volatile store is a bounded table in memory; its entries
are kept in the order in which their keys were first used and are sorted when they are listed. A
persistent store works on one table of a database, from byte keys to byte values and ordered by key.
It writes its keys most significant byte first, so that the order of the table is the order of the
numbers, and counts its entries once, when it is opened. -/
namespace BytecodeVm

inductive StoreError
  | full
  | closed
deriving DecidableEq

def StoreError.message : StoreError → String
  | .full => "store full"
  | .closed => "store closed"

instance : Failure StoreError := { message := StoreError.message }

abbrev Entry := UInt32 × UInt32

inductive StoreScope
  | perInstance
  | process
deriving DecidableEq

namespace StoreScope

def name : StoreScope → String
  | .perInstance => "local"
  | .process => "global"

/-- Scopes are told to others by a number, which need not be one of theirs. -/
def nameOf : UInt8 → String
  | 0 => perInstance.name
  | 1 => process.name
  | _ => "unknown"

end StoreScope

def defaultStoreCapacity : Nat := 16

/-- What a visitor sees that stops at the entry completing the count; with no count it
sees everything. The first entry is always shown. -/
def visited (count : Option Nat) (entries : List Entry) : List Entry :=
  match count with
  | none => entries
  | some n => entries.take (max 1 n)

/-! ## Volatile stores -/

structure Volatile where
  capacity : Nat
  entries : List Entry
deriving DecidableEq

namespace Volatile

/-- An empty store; a capacity that is not positive means the default. -/
def empty (capacity : Int) : Volatile :=
  ⟨if capacity ≤ 0 then defaultStoreCapacity else capacity.toNat, []⟩

def get? (s : Volatile) (key : UInt32) : Option UInt32 := s.entries.lookup key

def size (s : Volatile) : Nat := s.entries.length

def replace (s : Volatile) (key value : UInt32) : Volatile :=
  { s with entries := s.entries.map fun e => if e.1 = key then (key, value) else e }

def insert (s : Volatile) (key value : UInt32) : Except StoreError Volatile :=
  if s.capacity ≤ s.size then .error .full
  else .ok { s with entries := s.entries ++ [(key, value)] }

def update (s : Volatile) (key value : UInt32) : Except StoreError Volatile :=
  match s.get? key with
  | some _ => .ok (s.replace key value)
  | none => s.insert key value

def fetch (s : Volatile) (key : UInt32) : Except StoreError (UInt32 × Volatile) :=
  match s.get? key with
  | some value => .ok (value, s)
  | none => (s.insert key 0).map fun s => (0, s)

def listed (s : Volatile) : List Entry :=
  s.entries.mergeSort fun a b => decide (a.1 ≤ b.1)

def reset (s : Volatile) : Volatile := { s with entries := [] }

end Volatile

/-! ## Persistent stores -/

structure KeyTable where
  rows : List (List UInt8 × List UInt8)
deriving DecidableEq

namespace KeyTable

def empty : KeyTable := ⟨[]⟩

def get? (t : KeyTable) (key : List UInt8) : Option (List UInt8) := t.rows.lookup key

def insertRow (key value : List UInt8) :
    List (List UInt8 × List UInt8) → List (List UInt8 × List UInt8)
  | [] => [(key, value)]
  | (k, v) :: rest =>
    if key = k then (key, value) :: rest
    else if key < k then (key, value) :: (k, v) :: rest
    else (k, v) :: insertRow key value rest

def insert (t : KeyTable) (key value : List UInt8) : KeyTable :=
  ⟨insertRow key value t.rows⟩

def withLead (t : KeyTable) (lead : List UInt8) : List (List UInt8 × List UInt8) :=
  t.rows.filter fun row => lead.isPrefixOf row.1

end KeyTable

structure Database where
  tables : List (String × KeyTable)
deriving DecidableEq

namespace Database

def empty : Database := ⟨[]⟩

def table (d : Database) (name : String) : KeyTable := (d.tables.lookup name).getD .empty

def setTable (d : Database) (name : String) (t : KeyTable) : Database :=
  ⟨(name, t) :: d.tables.filter fun entry => entry.1 != name⟩

end Database

/-- How a store uses its database: with one table for each bucket, or with one table for all, in
which entries have keys of their own kind. -/
inductive Layout
  | bucket (name : String)
  | keyspace
deriving DecidableEq

namespace Layout

/-- A bucket without a name is the global one. -/
def table : Layout → String
  | .bucket name => if name = "" then StoreScope.process.name else name
  | .keyspace => ""

def lead : Layout → List UInt8
  | .bucket _ => []
  | .keyspace => [0x01]

def key (l : Layout) (key : UInt32) : List UInt8 :=
  l.lead ++ (LittleEndian.ofNat 4 key.toNat).reverse

def keyOf (l : Layout) (bytes : List UInt8) : UInt32 :=
  UInt32.ofNat (LittleEndian.toNat ((bytes.drop l.lead.length).take 4).reverse)

def value (v : UInt32) : List UInt8 := LittleEndian.ofNat 4 v.toNat

/-- A value that is too short reads as zero. -/
def valueOf (bytes : List UInt8) : UInt32 :=
  if bytes.length < 4 then 0 else UInt32.ofNat (LittleEndian.toNat (bytes.take 4))

end Layout

structure Persistent where
  database : Database
  layout : Layout
  /-- The greatest number of entries; without limit unless positive. -/
  capacity : Int
  count : Nat
  isOpen : Bool
deriving DecidableEq

namespace Persistent

def openOn (database : Database) (layout : Layout) (capacity : Int) : Persistent where
  database := database
  layout := layout
  capacity := capacity
  count := ((database.table layout.table).withLead layout.lead).length
  isOpen := true

def table (s : Persistent) : KeyTable := s.database.table s.layout.table

def get? (s : Persistent) (key : UInt32) : Option UInt32 :=
  (s.table.get? (s.layout.key key)).map Layout.valueOf

def isFull (s : Persistent) : Bool := decide (0 < s.capacity) && decide (s.capacity ≤ s.count)

def write (s : Persistent) (key value : UInt32) : Persistent :=
  let table := s.table.insert (s.layout.key key) (Layout.value value)
  { s with database := s.database.setTable s.layout.table table }

/-- The one routine of a store on a bucket: the value of a key afterwards. A key that is not present
is added, and a value that is there is replaced only if that is asked for. -/
def put (s : Persistent) (key value : UInt32) (overwrite : Bool) :
    Except StoreError (UInt32 × Persistent) :=
  if !s.isOpen then .error .closed
  else match s.get? key with
    | some current =>
      if overwrite then .ok (value, s.write key value) else .ok (current, s)
    | none =>
      if s.isFull then .error .full
      else .ok (value, { s.write key value with count := s.count + 1 })

def set (s : Persistent) (key value : UInt32) : Except StoreError Persistent :=
  let created := (s.get? key).isNone
  if !s.isOpen then .error .closed
  else if created && s.isFull then .error .full
  else
    let s := s.write key value
    .ok (if created then { s with count := s.count + 1 } else s)

def getOrCreate (s : Persistent) (key : UInt32) : Except StoreError (UInt32 × Persistent) :=
  if !s.isOpen then .error .closed
  else match s.get? key with
    | none =>
      if s.isFull then .error .full
      else .ok (0, { s.write key 0 with count := s.count + 1 })
    | some value => .ok (value, s)

def update (s : Persistent) (key value : UInt32) : Except StoreError Persistent :=
  match s.layout with
  | .bucket _ => (s.put key value true).map (·.2)
  | .keyspace => s.set key value

def fetch (s : Persistent) (key : UInt32) : Except StoreError (UInt32 × Persistent) :=
  match s.layout with
  | .bucket _ => s.put key 0 false
  | .keyspace => s.getOrCreate key

def listed (s : Persistent) : Except StoreError (List Entry) :=
  if !s.isOpen then .error .closed
  else .ok ((s.table.withLead s.layout.lead).map fun row =>
    (s.layout.keyOf row.1, Layout.valueOf row.2))

def close (s : Persistent) : Persistent := { s with isOpen := false }

end Persistent

/-! ## Stores of any kind -/

inductive Store
  | volatile (s : Volatile)
  | persistent (s : Persistent)
deriving DecidableEq

namespace Store

def inMemory (capacity : Int) : Store := .volatile (.empty capacity)

def update (s : Store) (key value : UInt32) : Except StoreError Store :=
  match s with
  | .volatile s => (s.update key value).map .volatile
  | .persistent s => (s.update key value).map .persistent

def fetch (s : Store) (key : UInt32) : Except StoreError (UInt32 × Store) :=
  match s with
  | .volatile s => (s.fetch key).map fun (v, s) => (v, .volatile s)
  | .persistent s => (s.fetch key).map fun (v, s) => (v, .persistent s)

def listed (s : Store) : Except StoreError (List Entry) :=
  match s with
  | .volatile s => .ok s.listed
  | .persistent s => s.listed

def range (s : Store) (count : Option Nat) : Except StoreError (List Entry) :=
  s.listed.map (visited count)

def size : Store → Nat
  | .volatile s => s.size
  | .persistent s => s.count

def close : Store → Store
  | .volatile s => .volatile s
  | .persistent s => .persistent s.close

end Store

end BytecodeVm
