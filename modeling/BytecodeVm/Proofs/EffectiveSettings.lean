import BytecodeVm.CommandLine.Tool
import BytecodeVm.Proofs.BranchLimit
import BytecodeVm.Proofs.FlagWords
import Mathlib

/-! The settings that take effect. Each setting has three sources: the flag, the settings file and
the standard value, and the first of them that says something decides. What it says is taken over as
it is, but for the number of branches: the flag takes one of 64 bits, and only the low 32 count. The
instance that is loaded under these settings enforces just the limit that they have. -/
namespace BytecodeVm

/-! ## The settings file -/

namespace Settings

open Toml (Value Table)

variable {σ β : Type} {walk : Walk} {slots : Slots σ} {reads : Value → β → Prop}

theorem sameName_iff {a b : String} :
    sameName a b = true ↔ a.toList.map foldChar = b.toList.map foldChar :=
  beq_iff_eq

theorem sameName_comm (a b : String) : sameName a b = sameName b a := by
  rw [Bool.eq_iff_iff, sameName_iff, sameName_iff, eq_comm]

theorem sameName_ne {a b c : String} (differ : sameName a b = false) (same : sameName c a = true) :
    sameName c b = false := by
  rw [Bool.eq_false_iff] at differ ⊢
  intro both
  exact differ (sameName_iff.mpr ((sameName_iff.mp same).symm.trans (sameName_iff.mp both)))

def Slot.Leaves (field : σ → β) : Slot σ → Prop
  | .integer set => ∀ n s s', set n s = some s' → field s' = field s
  | .boolean set => ∀ b s, field (set b s) = field s
  | .text set => ∀ t s, field (set t s) = field s

theorem Slot.Leaves.assign {slot : Slot σ} {field : σ → β} (h : slot.Leaves field) {v : Value}
    {s s' : σ} (done : slot.assign v s = some s') : field s' = field s := by
  unfold Slot.assign at done
  split at done
  · exact h _ _ _ done
  · cases done
    exact h _ _
  · cases done
    exact h _ _
  · cases done

def valuesOf (walk : Walk) (name : String) (t : Table) : List Value :=
  (walk.visit t).flatMap fun entry => if sameName name entry.1 then [entry.2] else []

/-- A field that only one setting of a section has is what the last value of that name says. -/
theorem settled_slot (field : σ → β) {name : String} {slot : Slot σ} (mine : (name, slot) ∈ slots)
    (others : ∀ other ∈ slots,
      other = (name, slot) ∨ sameName other.1 name = false ∧ other.2.Leaves field)
    (writes : ∀ v s s', slot.assign v s = some s' → reads v (field s'))
    {t : Table} {s s' : σ} (h : assignAll walk slots t s = some s') :
    Settled reads (valuesOf walk name t) (field s) (field s') := by
  refine Settled.foldlM field (fun s entry s' step => ?_) h
  obtain ⟨key, v⟩ := entry
  dsimp only at step ⊢
  split at step
  · rename_i label other found
    have named : sameName label key = true := by simpa using List.find?_some found
    rcases others _ (List.mem_of_find?_eq_some found) with same | ⟨differ, leaves⟩
    · cases same
      rw [if_pos named]
      exact .once (writes v s s' step)
    · -- the first setting that matches the key is another one, so the key is not this name
      rw [sameName_comm] at named
      rw [sameName_comm name key, sameName_ne differ named]
      exact .unsaid (leaves.assign step)
  · rename_i none
    have apart : sameName name key = false := by
      simpa using List.find?_eq_none.mp none _ mine
    cases step
    rw [apart]
    exact .unsaid rfl

def saidOf (walk : Walk) (label name : String) (root : Table) : List Value :=
  (walk.visit root).flatMap fun entry =>
    if sameName entry.1 label then
      match entry.2 with
      | .table t => valuesOf walk name t
      | _ => []
    else []

theorem saidOf_nil (walk : Walk) (label name : String) : saidOf walk label name [] = [] := by
  rw [saidOf, (walk.perm []).eq_nil]
  rfl

theorem perm_saidOf (walk walk' : Walk) (label name : String) (root : Table) :
    (saidOf walk label name root).Perm (saidOf walk' label name root) := by
  have inner (t : Table) : (valuesOf walk name t).Perm (valuesOf walk' name t) :=
    ((walk.perm t).trans (walk'.perm t).symm).flatMap_right _
  refine (((walk.perm root).trans (walk'.perm root).symm).flatMap_right _).trans ?_
  refine List.Perm.flatMap_left _ fun entry _ => ?_
  split
  · split
    · exact inner _
    · exact .refl _
  · exact .refl _

/-- The sections of the document under this name are taken over into this part of the settings, and
all others leave it alone. -/
def Opens (walk : Walk) (label : String) (part : Settings → σ) (slots : Slots σ) : Prop :=
  ∀ s key v s', assignSection walk s key v = some s' →
    if sameName key label then
      ∃ t, v = .table t ∧ assignAll walk slots t (part s) = some (part s')
    else part s' = part s

theorem settled_setting {part : Settings → σ} (field : σ → β) {label name : String}
    {slot : Slot σ} (opens : Opens walk label part slots) (mine : (name, slot) ∈ slots)
    (others : ∀ other ∈ slots,
      other = (name, slot) ∨ sameName other.1 name = false ∧ other.2.Leaves field)
    (writes : ∀ v s s', slot.assign v s = some s' → reads v (field s'))
    {root : Table} {s s' : Settings} (h : assignDocument walk root s = some s') :
    Settled reads (saidOf walk label name root) (field (part s)) (field (part s')) := by
  refine Settled.foldlM (fun s => field (part s)) (fun s entry s' step => ?_) h
  obtain ⟨key, v⟩ := entry
  have change := opens s key v s' step
  dsimp only
  split at change
  · rename_i named
    obtain ⟨t, rfl, assigned⟩ := change
    rw [if_pos named]
    exact settled_slot field mine others writes assigned
  · rename_i other
    rw [if_neg other]
    exact .unsaid (congrArg field change)

theorem exists_of_assignTable {put : σ → Settings} {old : σ} {v : Value} {s' : Settings}
    (h : (do let .table t := v | none
             return put (← assignAll walk slots t old)) = some s') :
    ∃ t new, v = .table t ∧ assignAll walk slots t old = some new ∧ s' = put new := by
  cases v with
  | table t =>
    obtain ⟨new, assigned, done⟩ := Option.bind_eq_some_iff.mp h
    cases done
    exact ⟨t, new, rfl, assigned, rfl⟩
  | _ => cases h

theorem assignSection_cases {s s' : Settings} {key : String} {v : Value}
    (h : assignSection walk s key v = some s') :
    (sameName key "vm" = true ∧ ∃ t vm, v = .table t ∧ assignAll walk runSlots t s.vm = some vm ∧
        s' = { s with vm := vm }) ∨
      (sameName key "store" = true ∧ ∃ t store, v = .table t ∧
        assignAll walk storeSlots t s.store = some store ∧ s' = { s with store := store }) ∨
      (sameName key "log" = true ∧ ∃ t log, v = .table t ∧
        assignAll walk logSlots t s.log = some log ∧ s' = { s with log := log }) ∨
      sameName key "vm" = false ∧ sameName key "store" = false ∧ sameName key "log" = false ∧
        s' = s := by
  unfold assignSection at h
  split at h
  · rename_i named
    exact .inl ⟨named, exists_of_assignTable h⟩
  · rename_i noRun
    refine .inr ?_
    split at h
    · rename_i named
      exact .inl ⟨named, exists_of_assignTable h⟩
    · rename_i noStore
      refine .inr ?_
      split at h
      · rename_i named
        exact .inl ⟨named, exists_of_assignTable h⟩
      · rename_i noLog
        cases h
        exact .inr ⟨Bool.eq_false_iff.mpr noRun, Bool.eq_false_iff.mpr noStore,
          Bool.eq_false_iff.mpr noLog, rfl⟩

theorem opens_vm : Opens walk "vm" (·.vm) runSlots := by
  intro s key v s' h
  rcases assignSection_cases h with ⟨named, t, vm, rfl, assigned, rfl⟩ |
    ⟨named, t, store, -, -, rfl⟩ | ⟨named, t, log, -, -, rfl⟩ | ⟨other, -, -, rfl⟩
  · rw [if_pos named]
    exact ⟨t, rfl, assigned⟩
  · rw [sameName_ne (by decide) named]
    exact rfl
  · rw [sameName_ne (by decide) named]
    exact rfl
  · rw [other]
    exact rfl

theorem opens_store : Opens walk "store" (·.store) storeSlots := by
  intro s key v s' h
  rcases assignSection_cases h with ⟨named, t, vm, -, -, rfl⟩ |
    ⟨named, t, store, rfl, assigned, rfl⟩ | ⟨named, t, log, -, -, rfl⟩ | ⟨-, other, -, rfl⟩
  · rw [sameName_ne (by decide) named]
    exact rfl
  · rw [if_pos named]
    exact ⟨t, rfl, assigned⟩
  · rw [sameName_ne (by decide) named]
    exact rfl
  · rw [other]
    exact rfl

theorem opens_log : Opens walk "log" (·.log) logSlots := by
  intro s key v s' h
  rcases assignSection_cases h with ⟨named, t, vm, -, -, rfl⟩ |
    ⟨named, t, store, -, -, rfl⟩ | ⟨named, t, log, rfl, assigned, rfl⟩ | ⟨-, -, other, rfl⟩
  · rw [sameName_ne (by decide) named]
    exact rfl
  · rw [sameName_ne (by decide) named]
    exact rfl
  · rw [if_pos named]
    exact ⟨t, rfl, assigned⟩
  · rw [other]
    exact rfl

structure Filed (walk : Walk) (root : Table) (s s' : Settings) : Prop where
  stackSize : Settled (fun v n => v = .integer n) (saidOf walk "vm" "stack_size" root)
    s.vm.stackSize s'.vm.stackSize
  branchLimit : Settled (fun v n => v = .integer n.toNat) (saidOf walk "vm" "branch_limit" root)
    s.vm.branchLimit s'.vm.branchLimit
  noReturn : Settled (fun v b => v = .boolean b) (saidOf walk "vm" "no_return" root)
    s.vm.noReturn s'.vm.noReturn
  backend : Settled (fun v t => v = .text t) (saidOf walk "store" "backend" root)
    s.store.backend s'.store.backend
  path : Settled (fun v t => v = .text t) (saidOf walk "store" "path" root)
    s.store.path s'.store.path
  level : Settled (fun v t => v = .text t) (saidOf walk "log" "level" root) s.log.level s'.log.level

theorem filed_of_assignDocument {root : Table} {s s' : Settings}
    (h : assignDocument walk root s = some s') : Filed walk root s s' where
  stackSize := by
    refine settled_setting RunSettings.stackSize opens_vm (.head _) ?_ (fun v s s' done => ?_) h
    · simp +decide [runSlots, Slot.Leaves]
    · cases v <;> cases done
      rfl
  branchLimit := by
    refine settled_setting RunSettings.branchLimit opens_vm (.tail _ (.head _)) ?_
      (fun v s s' done => ?_) h
    · simp +decide [runSlots, Slot.Leaves]
    · cases v with
      | integer n =>
        simp only [Slot.assign] at done
        split at done
        · rename_i inside
          cases done
          have small : n.toNat < 2 ^ 32 := by omega
          rw [UInt32.toNat_ofNat_of_lt' small, Int.toNat_of_nonneg inside.1]
        · cases done
      | _ => cases done
  noReturn := by
    refine settled_setting RunSettings.noReturn opens_vm (.tail _ (.tail _ (.head _))) ?_
      (fun v s s' done => ?_) h
    · simp +decide [runSlots, Slot.Leaves]
    · cases v <;> cases done
      rfl
  backend := by
    refine settled_setting StoreSettings.backend opens_store (.head _) ?_ (fun v s s' done => ?_) h
    · simp +decide [storeSlots, Slot.Leaves]
    · cases v <;> cases done
      rfl
  path := by
    refine settled_setting StoreSettings.path opens_store (.tail _ (.head _)) ?_ (fun v s s' done => ?_) h
    · simp +decide [storeSlots, Slot.Leaves]
    · cases v <;> cases done
      rfl
  level := by
    refine settled_setting LogSettings.level opens_log (.head _) ?_ (fun v s s' done => ?_) h
    · simp +decide [logSlots, Slot.Leaves]
    · cases v <;> cases done
      rfl

theorem load_eq_ok {file : Option Bytes} {s : Settings} (h : load walk file = .ok s) :
    ∃ bytes document, file = some bytes ∧ Toml.parse bytes = some document ∧
      Filed walk document.root standard s := by
  unfold load at h
  split at h
  · cases h
  · rename_i document parsed
    obtain ⟨bytes, present, parsed⟩ := Option.bind_eq_some_iff.mp parsed
    split at h
    · cases h
    · rename_i s taken
      split at h
      · split at h <;> cases h
        exact ⟨bytes, document, present, parsed, filed_of_assignDocument taken⟩
      · cases h

theorem positive_of_problems {s : Settings} (clean : s.problems = []) :
    0 < s.vm.stackSize ∧ s.instanceConfig.branchLimit ≠ 0 := by
  simp only [problems, List.append_eq_nil_iff] at clean
  obtain ⟨⟨⟨⟨stack, limit⟩, -⟩, -⟩, -⟩ := clean
  refine ⟨?_, fun zero => ?_⟩
  · by_cases small : s.vm.stackSize ≤ 0
    · simp [small] at stack
    · omega
  · have zero : s.vm.branchLimit = 0 := zero
    simp [zero] at limit

theorem filed_nil (walk : Walk) (s : Settings) : Filed walk [] s s := by
  constructor <;>
  · rw [saidOf_nil]
    exact .unsaid rfl

theorem load_of_illegible {bytes : Bytes} {document : Toml.Document} {v : Value}
    (parsed : Toml.parse bytes = some document)
    (said : v ∈ saidOf walk "vm" "branch_limit" document.root)
    (illegible : ∀ n : UInt32, v ≠ .integer n.toNat) :
    load walk (some bytes) = .error .unreadable := by
  have refused : assignDocument walk document.root standard = none := by
    cases taken : assignDocument walk document.root standard with
    | none => rfl
    | some s =>
      obtain ⟨n, same⟩ := (filed_of_assignDocument taken).branchLimit.legible v said
      exact absurd same (illegible n)
  simp only [load, Option.bind_some, parsed, refused]

end Settings

namespace CommandLine

open Toml (Value Table)

/-! ## Flags over the file over the standard -/

/-- The value is that of the flag, read from the last text that it was given; if it was given none,
that of the file, and if the file has none, the standard one. What is overruled can be read too. -/
structure Layered {β : Type} (flag : String → β → Prop) (texts : List String)
    (file : Value → β → Prop) (values : List Value) (standard effective : β) : Prop where
  given : ∀ t ∈ texts, ∃ b, flag t b
  filed : ∀ v ∈ values, ∃ b, file v b
  decided : match texts.getLast?, values.getLast? with
    | some t, _ => flag t effective
    | none, some v => file v effective
    | none, none => effective = standard

def Taken {β : Type} (flag : String → β → Prop) (text : String) (option : Option β) : Prop :=
  ∃ v, flag text v ∧ option = some v

theorem layered_getD {β : Type} {flag : String → β → Prop} {texts : List String}
    {file : Value → β → Prop} {values : List Value} {option : Option β} {standard base : β}
    (given : Settled (Taken flag) texts none option) (filed : Settled file values standard base) :
    Layered flag texts file values standard (option.getD base) where
  given t member := by
    obtain ⟨-, v, read, -⟩ := given.legible t member
    exact ⟨v, read⟩
  filed := filed.legible
  decided := by
    have given := given.decided
    have filed := filed.decided
    cases last : texts.getLast? with
    | some t =>
      rw [last] at given
      obtain ⟨v, read, rfl⟩ := given
      exact read
    | none =>
      rw [last] at given
      rw [given]
      cases final : values.getLast? with
      | some v =>
        rw [final] at filed
        exact filed
      | none =>
        rw [final] at filed
        exact filed

structure Options.Flagged (given : List (String × String)) (o : Options) : Prop where
  settingsFile : o.settingsFile = (textsOf "config" given).getLast?.getD ""
  stackSize : Settled (Taken fun t n => Number.integer t.toList = .ok n) (textsOf "stack" given)
    none o.stackSize
  branchLimit : Settled
    (Taken fun t (n : UInt32) => ∃ k, Number.natural t.toList = .ok k ∧ n.toNat = k % 2 ^ 32)
    (textsOf "branches" given) none (o.branchLimit.map UInt32.ofNat)
  noReturn : Settled (Taken fun t b => switchValue? t = some b) (textsOf "no-return" given)
    none o.noReturn
  backend : Settled (Taken fun t v => v = t) (textsOf "store" given) none o.backend
  storePath : Settled (Taken fun t v => v = t) (textsOf "store-path" given) none o.storePath
  logLevel : Settled (Taken fun t v => v = t) (textsOf "log-level" given) none o.logLevel

theorem Options.flagged_of_foldlM {given : List (String × String)} {o : Options}
    (h : given.foldlM Options.flags.set .standard = some o) : o.Flagged given where
  settingsFile := by
    have settled : Settled (fun t v => v = t) (textsOf "config" given) "" o.settingsFile := by
      refine settled_flag Options.settingsFile "config" rfl ?_ (fun t o o' done => ?_) h
      · simp [flags, Action.Leaves]
      · cases done
        rfl
    have decided := settled.decided
    split at decided
    · rename_i last
      rw [decided, last, Option.getD_some]
    · rename_i last
      rw [decided, last, Option.getD_none]
  stackSize := by
    refine settled_flag Options.stackSize "stack" rfl ?_ (fun t o o' done => ?_) h
    · simp [flags, Action.Leaves]
    · simp only [Action.apply] at done
      split at done <;> cases done
      exact ⟨_, ‹_›, rfl⟩
  branchLimit := by
    refine settled_flag (fun o => o.branchLimit.map UInt32.ofNat) "branches" rfl ?_
      (fun t o o' done => ?_) h
    · simp [flags, Action.Leaves]
    · simp only [Action.apply] at done
      split at done <;> cases done
      exact ⟨_, ⟨_, ‹_›, UInt32.toNat_ofNat'⟩, rfl⟩
  noReturn := by
    refine settled_flag Options.noReturn "no-return" rfl ?_ (fun t o o' done => ?_) h
    · simp [flags, Action.Leaves]
    · simp only [Action.apply] at done
      split at done <;> cases done
      exact ⟨_, ‹_›, rfl⟩
  backend := by
    refine settled_flag Options.backend "store" rfl ?_ (fun t o o' done => ?_) h
    · simp [flags, Action.Leaves]
    · cases done
      exact ⟨t, rfl, rfl⟩
  storePath := by
    refine settled_flag Options.storePath "store-path" rfl ?_ (fun t o o' done => ?_) h
    · simp [flags, Action.Leaves]
    · cases done
      exact ⟨t, rfl, rfl⟩
  logLevel := by
    refine settled_flag Options.logLevel "log-level" rfl ?_ (fun t o o' done => ?_) h
    · simp [flags, Action.Leaves]
    · cases done
      exact ⟨t, rfl, rfl⟩

/-- Every setting that has a flag is what the flag says, or the document, or the standard. The
number of branches that a flag gives counts modulo `2 ^ 32`. -/
structure Effective (walk : Settings.Walk) (given : List (String × String)) (root : Table)
    (s : Settings) : Prop where
  stackSize : Layered (fun t n => Number.integer t.toList = .ok n) (textsOf "stack" given)
    (fun v n => v = .integer n) (Settings.saidOf walk "vm" "stack_size" root)
    Settings.standard.vm.stackSize s.vm.stackSize
  branchLimit : Layered
    (fun t (n : UInt32) => ∃ k, Number.natural t.toList = .ok k ∧ n.toNat = k % 2 ^ 32)
    (textsOf "branches" given) (fun v n => v = .integer n.toNat)
    (Settings.saidOf walk "vm" "branch_limit" root) Settings.standard.vm.branchLimit
    s.vm.branchLimit
  noReturn : Layered (fun t b => switchValue? t = some b) (textsOf "no-return" given)
    (fun v b => v = .boolean b) (Settings.saidOf walk "vm" "no_return" root)
    Settings.standard.vm.noReturn s.vm.noReturn
  backend : Layered (fun t v => v = t) (textsOf "store" given) (fun v t => v = .text t)
    (Settings.saidOf walk "store" "backend" root) Settings.standard.store.backend s.store.backend
  path : Layered (fun t v => v = t) (textsOf "store-path" given) (fun v t => v = .text t)
    (Settings.saidOf walk "store" "path" root) Settings.standard.store.path s.store.path
  level : Layered (fun t v => v = t) (textsOf "log-level" given) (fun v t => v = .text t)
    (Settings.saidOf walk "log" "level" root) Settings.standard.log.level s.log.level

theorem Options.Flagged.effective {walk : Settings.Walk} {given : List (String × String)}
    {o : Options} {root : Table} {base : Settings} (h : o.Flagged given)
    (filed : Settings.Filed walk root .standard base) :
    Effective walk given root (o.override base) where
  stackSize := layered_getD h.stackSize filed.stackSize
  branchLimit := layered_getD h.branchLimit filed.branchLimit
  noReturn := layered_getD h.noReturn filed.noReturn
  backend := layered_getD h.backend filed.backend
  path := layered_getD h.storePath filed.path
  level := layered_getD h.logLevel filed.level

def Documents (files : FileTree) (path : String) (root : Table) : Prop :=
  if path = "" then root = []
  else ∃ bytes document, files.read path = .ok bytes ∧ Toml.parse bytes = some document ∧
    root = document.root

theorem Options.settings_eq_ok {walk : Settings.Walk} {o : Options} {files : FileTree}
    {s : Settings} (h : o.settings walk files = .ok s) :
    ∃ root base, Documents files o.settingsFile root ∧ Settings.Filed walk root .standard base ∧
      s = o.override base ∧ s.problems = [] := by
  unfold Options.settings at h
  cases based : o.base walk files with
  | error e =>
    rw [based] at h
    cases h
  | ok base =>
    rw [based] at h
    change (if (o.override base).problems.isEmpty then Except.ok (o.override base)
      else .error (ToolError.invalid (o.override base).problems)) = .ok s at h
    split at h
    · rename_i fine
      cases h
      have clean := List.isEmpty_iff.mp fine
      unfold Options.base at based
      split at based
      · rename_i empty
        cases based
        refine ⟨[], _, ?_, Settings.filed_nil walk _, rfl, clean⟩
        rw [Documents, if_pos (String.isEmpty_iff.mp empty)]
      · rename_i some_there
        split at based <;> cases based
        rename_i loaded
        obtain ⟨bytes, document, present, parsed, filed⟩ := Settings.load_eq_ok loaded
        refine ⟨document.root, _, ?_, filed, rfl, clean⟩
        rw [Documents, if_neg (mt String.isEmpty_iff.mpr some_there)]
        refine ⟨bytes, document, ?_, parsed, rfl⟩
        cases read : files.read o.settingsFile with
        | error e => simp [read, Except.toOption] at present
        | ok found => simpa [read, Except.toOption] using present
    · cases h

theorem Options.settings_of_illegible {walk : Settings.Walk} {o : Options} {files : FileTree}
    {root : Table} {v : Value} (documents : Documents files o.settingsFile root)
    (said : v ∈ Settings.saidOf walk "vm" "branch_limit" root)
    (illegible : ∀ n : UInt32, v ≠ .integer n.toNat) :
    o.settings walk files = .error (.settings o.settingsFile .unreadable) := by
  unfold Documents at documents
  split at documents
  · rw [documents, Settings.saidOf_nil] at said
    cases said
  · rename_i named
    obtain ⟨bytes, document, read, parsed, rfl⟩ := documents
    have refused := Settings.load_of_illegible parsed said illegible
    have based : o.base walk files = .error (.settings o.settingsFile .unreadable) := by
      rw [Options.base, if_neg (mt String.isEmpty_iff.mp named), read, Except.toOption, refused]
    rw [Options.settings, based]
    rfl

end CommandLine

/-! ## The limit of the machine -/

theorem MachineCall.continues_prepare (call : MachineCall) (i : Instance) :
    i.Continues (call.prepare i) := by
  rcases call with r1 | _ | argument
  · exact i.continues_mapArgument _
  · exact i.continues_mapArgument _
  · exact (i.continues_mapArgument argument).trans (Instance.continues_openArgument _)

/-- Whoever calls the program, and with what functions: the call runs out of branches if the program
takes more jumps than this, and not otherwise. -/
def Instance.Enforces (limit : UInt32) (i : Instance) : Prop :=
  ∀ (image : Container) (lookup : Lookup) (host : Surroundings) (call : MachineCall),
    i.image = some image →
    Verifier.verify (fun code => (lookup code).isSome) i.config.noReturn image.text = .ok () →
    let p := Program.ofText image.text lookup
    let taken := (((call.prepare i).boot host call.register).trace p).countP (Cpu.takesJump p)
    (call.execution i lookup host).RunsOut limit ↔ limit.toNat < taken

theorem Instance.enforces_limit {i : Instance} (up : i.isSetUp = true) :
    i.Enforces i.budget.limit := by
  intro image lookup host call loaded accepted p taken
  have kept := call.continues_prepare i
  have budget : ((call.prepare i).boot host call.register).budget.Tally i.budget.limit 0 := by
    rw [← kept.limit]
    exact BranchBudget.tally_ofLimit _
  rw [← kept.config] at accepted
  obtain ⟨n, s, steps, last⟩ :=
    Cpu.exists_steps_run p ((call.prepare i).boot host call.register)
  -- a run that ends has counted its jumps, and went past the limit or stayed within it
  have ends := steps.tally_of_done accepted rfl budget last
  rw [Execution.RunsOut, MachineCall.result_of_setUp up,
    run_of_accepted (kept.image.trans loaded) accepted, settle_eq]
  generalize ((call.prepare i).boot host call.register).run p = ended at ends ⊢
  obtain ⟨outcome, t⟩ := ended
  rcases ends with ⟨out, count, -⟩ | ⟨tally, other⟩
  · dsimp only at out ⊢
    subst out
    change taken = _ at count
    exact ⟨fun _ => by omega, fun _ => ⟨s.pc, rfl⟩⟩
  · have within : taken ≤ _ := tally.le
    refine ⟨?_, fun past => by omega⟩
    rintro ⟨pc, failed⟩
    obtain ⟨pc', e', rfl, same⟩ := Outcome.failed_of_result failed
    cases same
    obtain ⟨own, impossible⟩ := other _ _ rfl rfl
    cases impossible

theorem Machine.load_create {config : InstanceConfig} {registry : Registry} {globals : Option Store}
    {image : Container} {stackSize : Int} {m : Machine}
    (h : (create config registry globals).load (some image) stackSize = (none, m))
    (limit : config.branchLimit ≠ 0) (positive : 0 < stackSize) :
    ∃ i, m.inst = some i ∧ i.isSetUp = true ∧ i.image = some image ∧
      i.config.stackSize = stackSize ∧ i.config.noReturn = config.noReturn ∧
      i.budget.limit = config.branchLimit := by
  unfold load at h
  dsimp only at h
  split at h
  · cases h
  · rename_i i up
    cases h
    obtain ⟨_, locals, -, rfl⟩ := Instance.setup_eq_ok up
    refine ⟨_, rfl, rfl, rfl, ?_, rfl, ?_⟩
    · simp only [Instance.create, InstanceConfig.normalized, if_neg (Int.not_le.mpr positive)]
    · exact if_neg limit

theorem Hosted.retains_after (h : Hosted) {history : List HostAction}
    (other : ∀ a ∈ history, a.isLoading = false) :
    h.machine.Retains (h.after history).machine := by
  refine after_induction (P := fun next => h.machine.Retains next.machine) (.refl _)
    fun next a member kept => ?_
  exact kept.trans (next.uses_perform (other a member)).retains

namespace CommandLine

/-- Where flags and file are accepted, every setting that has a flag is what the flag says, else the
file, else the standard. In whatever order the entries of the file are taken, they say the same, so
the order does not matter for a setting that has one name in the file. The instance that is loaded
under the settings enforces their limit, however often it is called. Numbers are read as they are
written; those of more than 64 bits are refused, and a file with a limit of more than 32 bits is
refused whatever the flags say. Of the number of branches that a flag gives only the low 32 bits
count, so it takes effect as it is just if it is below `2 ^ 32`. -/
theorem settings_take_effect {words operands : List String} {walk : Settings.Walk}
    {files : FileTree} {o : Options} {s : Settings}
    (understood : parseFlags Options.flags .standard words = .ok (o, operands))
    (accepted : o.settings walk files = .ok s) :
    (∃ given root, Gives Options.flags words given operands ∧
      Documents files ((textsOf "config" given).getLast?.getD "") root ∧
      Effective walk given root s ∧
      (∀ label name, (Settings.saidOf walk label name root).Perm
        (Settings.saidOf .asWritten label name root)) ∧
      ∀ t k, (textsOf "branches" given).getLast? = some t → Number.natural t.toList = .ok k →
        (s.vm.branchLimit.toNat = k ↔ k < 2 ^ 32)) ∧
    s.problems = [] ∧
    (∀ (image : Container) (globals : Store) (m : Machine),
      (Machine.create s.instanceConfig (.standard s.vm.extensions) (some globals)).load
        (some image) s.vm.stackSize = (none, m) →
      ∀ (shared : Store) (history : List HostAction), (∀ a ∈ history, a.isLoading = false) →
        ∃ i, ((Hosted.mk m shared).after history).machine.inst = some i ∧ i.isSetUp = true ∧
          i.image = some image ∧ i.config.stackSize = s.vm.stackSize ∧
          i.config.noReturn = s.vm.noReturn ∧ i.Enforces s.vm.branchLimit) ∧
    (∀ (o : Options) (files : FileTree) (root : Toml.Table) (v : Toml.Value),
      Documents files o.settingsFile root →
      v ∈ Settings.saidOf walk "vm" "branch_limit" root → (∀ n : UInt32, v ≠ .integer n.toNat) →
      o.settings walk files = .error (.settings o.settingsFile .unreadable)) ∧
    (∀ cs k, Number.natural cs = .ok k → k < 2 ^ 64 ∧
      k = Numeral.value (Number.split cs).1
        ((Number.split cs).2.filterMap (Numeral.digit? (Number.split cs).1))) ∧
    (∀ n : Nat, Number.natural (Numeral.decimal n).toList =
      if n < 2 ^ 64 then .ok n else .error .outOfRange) ∧
    ∀ n : Int, Number.integer (Numeral.signed n).toList =
      if -2 ^ 63 ≤ n ∧ n < 2 ^ 63 then .ok n else .error .outOfRange := by
  obtain ⟨given, gives, sets⟩ := gives_of_parseFlags understood
  have flagged := Options.flagged_of_foldlM sets
  obtain ⟨root, base, documents, filed, rfl, clean⟩ := Options.settings_eq_ok accepted
  have effective := flagged.effective filed
  rw [flagged.settingsFile] at documents
  refine ⟨⟨given, root, gives, documents, effective,
      fun label name => Settings.perm_saidOf _ _ label name root, fun t k last number => ?_⟩, clean,
    fun image globals m loaded shared history other => ?_,
    fun _ _ _ _ => Options.settings_of_illegible, fun cs k read => ?_, Number.natural_decimal,
    Number.integer_signed⟩
  · have limit := effective.branchLimit.decided
    rw [last] at limit
    obtain ⟨k', read, low⟩ := limit
    cases number.symm.trans read
    omega
  · obtain ⟨positive, limit⟩ := Settings.positive_of_problems clean
    obtain ⟨i, found, up, same, stack, noReturn, budget⟩ :=
      Machine.load_create loaded limit positive
    obtain ⟨j, there, kept⟩ := ((Hosted.mk m shared).retains_after other).inst i found
    have enforces := Instance.enforces_limit (kept.isSetUp.trans up)
    rw [kept.limit, budget] at enforces
    exact ⟨j, there, kept.isSetUp.trans up, kept.image.trans same, by rw [kept.config, stack],
      by rw [kept.config, noReturn]; rfl, enforces⟩
  · obtain ⟨value, small⟩ := Number.natural_eq_ok read
    exact ⟨small, value⟩

def limitFile : FileTree :=
  ⟨[(⟨.work, ["f"]⟩, .file (Bytes.ofText "[VM]\nbranch_limit = 9\n"))]⟩

theorem parse_of_text {file : Bytes} {text : String} (h : Toml.fileText file = some text)
    (proper : Toml.wellFormed text.toList = true) :
    Toml.parse file = (Toml.lines (text.toList.length + 1) .empty text.toList).map
      fun b => ⟨b.root, b.order⟩ := by
  rw [Toml.parse, h]
  exact if_pos proper

theorem parse_limitFile : Toml.parse (Bytes.ofText "[VM]\nbranch_limit = 9\n") =
    some ⟨[("VM", .table [("branch_limit", .integer 9)])], [["VM"], ["VM", "branch_limit"]]⟩ := by
  have text : Toml.fileText (Bytes.ofText "[VM]\nbranch_limit = 9\n") =
      some "[VM]\nbranch_limit = 9\n" := by decide +kernel
  rw [parse_of_text text (by decide +kernel)]
  cbv

theorem load_limitFile : Settings.load .asWritten (limitFile.read "f").toOption =
    .ok { Settings.standard with vm := { Settings.standard.vm with branchLimit := 9 } } := by
  have read : limitFile.read "f" = .ok (Bytes.ofText "[VM]\nbranch_limit = 9\n") := by cbv
  rw [read, Settings.load, Except.toOption, Option.bind_some, parse_limitFile]
  rfl

theorem settings_take_effect_layers :
    let words := ["-stack=0x400", "--no-return", "-config", "f", "a.bin"]
    ∃ o s, parseFlags Options.flags .standard words = .ok (o, ["a.bin"]) ∧
      o.settings .asWritten limitFile = .ok s ∧ s.vm.stackSize = 1024 ∧ s.vm.branchLimit = 9 ∧
      s.vm.noReturn = true ∧ s.log.level = "info" ∧
      ∃ given root, Gives Options.flags words given ["a.bin"] ∧
        Documents limitFile ((textsOf "config" given).getLast?.getD "") root ∧
        Effective .asWritten given root s := by
  intro words
  let o : Options := { Options.standard with
    settingsFile := "f", stackSize := some 1024, noReturn := some true }
  let s : Settings := { Settings.standard with
    vm := { Settings.standard.vm with stackSize := 1024, branchLimit := 9, noReturn := true } }
  have understood : parseFlags Options.flags .standard words = .ok (o, ["a.bin"]) := rfl
  have named : ¬ o.settingsFile.isEmpty = true := by decide
  have accepted : o.settings .asWritten limitFile = .ok s := by
    rw [Options.settings, Options.base, if_neg named, load_limitFile]
    exact if_pos (show s.problems.isEmpty = true by decide +kernel)
  obtain ⟨⟨given, root, gives, documents, effective, -⟩, -⟩ :=
    settings_take_effect understood accepted
  exact ⟨o, s, understood, accepted, rfl, rfl, rfl, rfl, given, root, gives, documents, effective⟩

/-- A number of branches that a flag may give, and that is not the limit then. -/
theorem branches_keep_low_bits :
    ∃ o s, parseFlags Options.flags .standard ["-branches", "4294967297", "a.bin"] =
        .ok (o, ["a.bin"]) ∧
      o.settings .asWritten .empty = .ok s ∧ o.branchLimit = some 4294967297 ∧
      s.vm.branchLimit.toNat = 1 ∧ s.vm.branchLimit.toNat ≠ 4294967297 :=
  ⟨{ Options.standard with branchLimit := some 4294967297 },
    { Settings.standard with vm := { Settings.standard.vm with branchLimit := 1 } },
    rfl, rfl, rfl, rfl, by decide⟩

end CommandLine

end BytecodeVm
