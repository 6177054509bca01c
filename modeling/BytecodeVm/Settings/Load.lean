import BytecodeVm.Settings.Basic
import BytecodeVm.Toml.Document

/-! Settings from a TOML file. Each section is a table; what the file leaves out keeps its
standard value. Names are read without regard to case, and a name that no setting has is an
error. The entries of a table come in no particular order, which only matters where two of them are
names of one setting. -/
namespace BytecodeVm

inductive SettingsError
  /-- The file is missing, is not TOML, or has a value of the wrong kind. -/
  | unreadable
  | unknownKeys (keys : List Toml.Key)
  | invalid (problems : List SettingsProblem)

def SettingsError.message (path : String) : SettingsError → String
  | .unreadable => "parse error in " ++ path
  | .unknownKeys keys =>
    "unknown keys in " ++ path ++ ": " ++ ", ".intercalate (keys.map Toml.keyText)
  | .invalid problems => "invalid " ++ path ++ ": " ++ Settings.problemsText problems

namespace Settings

open Toml (Value Table Key)

/-- An order to take over the entries of tables in. -/
structure Walk where
  visit : Table → Table
  perm : ∀ t, (visit t).Perm t

def Walk.asWritten : Walk := ⟨id, fun _ => .refl _⟩

inductive Slot (σ : Type)
  | integer (set : Int → σ → Option σ)
  | boolean (set : Bool → σ → σ)
  | text (set : String → σ → σ)

def Slot.assign {σ : Type} : Slot σ → Value → σ → Option σ
  | .integer set, .integer n, s => set n s
  | .boolean set, .boolean b, s => some (set b s)
  | .text set, .text t, s => some (set t s)
  | _, _, _ => none

abbrev Slots (σ : Type) := List (String × Slot σ)

def foldChar (c : Char) : Char :=
  if c.toNat = 0x17f then 's' else if c.toNat = 0x212a then 'k' else c.toLower

def sameName (a b : String) : Bool := a.toList.map foldChar == b.toList.map foldChar

/-- Takes over a table; names without a slot are passed over. -/
def assignAll {σ : Type} (walk : Walk) (slots : Slots σ) (t : Table) (s : σ) : Option σ :=
  (walk.visit t).foldlM (fun s (name, v) =>
    match slots.find? fun slot => sameName slot.1 name with
    | some (_, slot) => slot.assign v s
    | none => some s) s

def runSlots : Slots RunSettings :=
  [("stack_size", .integer fun n s => some { s with stackSize := n }),
   ("branch_limit", .integer fun n s =>
      if 0 ≤ n ∧ n < 4294967296 then some { s with branchLimit := UInt32.ofNat n.toNat } else none),
   ("no_return", .boolean fun b s => { s with noReturn := b }),
   ("max_data_size", .integer fun n s => some { s with maxDataSize := (Int64.ofInt n).toUInt64 }),
   ("local_capacity", .integer fun n s => some { s with localCapacity := n }),
   ("extensions", .boolean fun b s => { s with extensions := b })]

def storeSlots : Slots StoreSettings :=
  [("backend", .text fun t s => { s with backend := t }),
   ("path", .text fun t s => { s with path := t }),
   ("capacity", .integer fun n s => some { s with capacity := n }),
   ("sync_writes", .boolean fun b s => { s with syncWrites := b })]

def logSlots : Slots LogSettings :=
  [("level", .text fun t s => { s with level := t }),
   ("format", .text fun t s => { s with format := t })]

def assignSection (walk : Walk) (s : Settings) (name : String) (v : Value) : Option Settings :=
  if sameName name "vm" then do
    let .table t := v | none
    return { s with vm := ← assignAll walk runSlots t s.vm }
  else if sameName name "store" then do
    let .table t := v | none
    return { s with store := ← assignAll walk storeSlots t s.store }
  else if sameName name "log" then do
    let .table t := v | none
    return { s with log := ← assignAll walk logSlots t s.log }
  else some s

def sections : List (String × List String) :=
  [("vm", runSlots.map (·.1)), ("store", storeSlots.map (·.1)), ("log", logSlots.map (·.1))]

/-- Whether a key of the document leads to a section or to a setting, and to a value that is
still there at the end of the file. -/
def isKnown (root : Table) : Key → Bool
  | [name] => (root.lookup name).isSome && sections.any fun part => sameName part.1 name
  | [name, setting] =>
    (match root.lookup name with
      | some (.table t) => (t.lookup setting).isSome
      | _ => false) &&
    sections.any fun part => sameName part.1 name && part.2.any (sameName setting)
  | _ => false

def assignDocument (walk : Walk) (root : Table) (s : Settings) : Option Settings :=
  (walk.visit root).foldlM (fun s (name, v) => assignSection walk s name v) s

def load (walk : Walk) (file : Option Bytes) : Except SettingsError Settings :=
  match file.bind Toml.parse with
  | none => .error .unreadable
  | some document =>
    match assignDocument walk document.root standard with
    | none => .error .unreadable
    | some s =>
      match document.order.filter fun key => !isKnown document.root key with
      | [] => if s.problems.isEmpty then .ok s else .error (.invalid s.problems)
      | unknown => .error (.unknownKeys unknown)

end Settings

end BytecodeVm
