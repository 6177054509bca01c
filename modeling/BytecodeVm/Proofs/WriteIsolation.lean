import BytecodeVm.Proofs.ByteStrings
import BytecodeVm.Proofs.Calls
import BytecodeVm.Proofs.Regions
import BytecodeVm.Proofs.Steps
import BytecodeVm.Syscall.Registry

/-! Write isolation: a call changes bytes only in regions that grant writing. Every way to write,
by a store of any width or by a built-in function, resolves its range for writing first, so one
step keeps every other region; a run is made of such steps, and a call is a run between two
changes of the argument region. -/
namespace BytecodeVm

def Permission.unwritable (p : Permission) : Bool := !p.allows .write

namespace RegionTable

variable {t t' : RegionTable} {addr size : UInt64} {bytes : Bytes}

theorem agrees_put_of_locate {place : Place} (located : t.locate addr size .write = .ok place)
    (length : bytes.size = size.toNat) : t.Agrees Permission.unwritable (t.put place bytes) := by
  obtain ⟨r, grants⟩ := grants_of_locate located
  rw [← length] at grants
  refine grants.agrees_put ?_
  rw [Permission.unwritable, grants.granted]
  rfl

theorem agrees_of_write (written : t.write addr bytes = .ok t') (short : bytes.size < UInt64.size) :
    t.Agrees Permission.unwritable t' := by
  cases located : t.locate addr (UInt64.ofNat bytes.size) .write with
  | error e => simp [write, located, bind, Except.bind] at written
  | ok place =>
    simp only [write, located, bind, Except.bind, pure, Except.pure, Except.ok.injEq] at written
    subst written
    exact agrees_put_of_locate located (UInt64.toNat_ofNat_of_lt' short).symm

theorem agrees_of_store {width : AccessSize} {x : UInt64}
    (stored : t.store addr width.bytes x = .ok t') : t.Agrees Permission.unwritable t' := by
  refine agrees_of_write stored ?_
  rw [Bytes.size_ofList, LittleEndian.length_ofNat]
  cases width <;> decide

theorem size_of_read (h : t.read addr size = .ok bytes) : bytes.size = size.toNat := by
  cases located : t.locate addr size .read with
  | error e => simp [read, resolve, located, bind, Except.bind] at h
  | ok place =>
    obtain ⟨r, grants⟩ := grants_of_locate located
    simp only [read, resolve, located, bind, Except.bind, pure, Except.pure, grants.found,
      Option.getD_some, Except.ok.injEq] at h
    rw [← h, Bytes.size_slice_of_le grants.inside]

end RegionTable

theorem Blake3.length_digest (b : Bytes) : (Blake3.digest b).length = 32 := by
  simp [Blake3.digest, List.length_flatMap]

theorem Keccak.length_digest (b : Bytes) : (Keccak.digest b).length = 32 := by
  simp [Keccak.digest, List.length_flatMap]

def KeepsUnwritable (handler : Handler) : Prop :=
  ∀ (w : World) (a : Arguments), w.memory.Agrees Permission.unwritable (handler w a).2.memory

namespace Builtin

theorem memory_setStore (w : World) (scope : StoreScope) (s : Store) :
    (w.setStore scope s).memory = w.memory := by
  cases scope <;> rfl

theorem keepsUnwritable_printf : KeepsUnwritable printf := by
  intro w a
  unfold printf
  split
  · exact .refl _
  · split
    · exact .refl _
    · split <;> exact .refl _

theorem keepsUnwritable_memcpy : KeepsUnwritable memcpy := by
  intro w a
  unfold memcpy
  split
  · exact .refl _
  · split
    · exact .refl _
    · rename_i place located
      split
      · exact .refl _
      · rename_i bytes loaded
        exact RegionTable.agrees_put_of_locate located (RegionTable.size_of_read loaded)

theorem keepsUnwritable_store (scope : StoreScope) : KeepsUnwritable (store scope) := by
  intro w a
  unfold store
  split
  · exact .refl _
  · split
    · exact .refl _
    · rw [memory_setStore]
      exact .refl _

theorem keepsUnwritable_fetch (scope : StoreScope) : KeepsUnwritable (fetch scope) := by
  intro w a
  unfold fetch
  split
  · exact .refl _
  · split
    · exact .refl _
    · rename_i place located
      split
      · exact .refl _
      · refine RegionTable.agrees_put_of_locate located ?_
        rw [Bytes.size_ofList, LittleEndian.length_ofNat]
        rfl

theorem keepsUnwritable_hash {digest : Bytes → List UInt8} (length : ∀ b, (digest b).length = 32) :
    KeepsUnwritable (hash digest) := by
  intro w a
  unfold hash
  split
  · exact .refl _
  · split
    · exact .refl _
    · rename_i place located
      refine RegionTable.agrees_put_of_locate located ?_
      rw [Bytes.size_ofList, length]
      rfl

end Builtin

theorem Registry.keepsUnwritable_standard (hashing : Bool) :
    ∀ s ∈ (Registry.standard hashing).syscalls, KeepsUnwritable s.handler :=
  Registry.forall_mem_standard Builtin.keepsUnwritable_printf Builtin.keepsUnwritable_memcpy
    Builtin.keepsUnwritable_store Builtin.keepsUnwritable_fetch (fun _ _ => .refl _)
    (Builtin.keepsUnwritable_hash Blake3.length_digest)
    (Builtin.keepsUnwritable_hash Keccak.length_digest) hashing

def Registry.OnlyBuiltinsWrite (r : Registry) : Prop :=
  ∀ s ∈ r.syscalls, s ∈ (Registry.standard true).syscalls ∨
    ∀ (w : World) (a : Arguments), (s.handler w a).2.memory = w.memory

theorem Registry.onlyBuiltinsWrite_standard (hashing : Bool) :
    (Registry.standard hashing).OnlyBuiltinsWrite := by
  intro s member
  obtain ⟨f, listed, rfl⟩ := List.mem_map.mp member
  refine .inl (List.mem_map.mpr ⟨f, ?_, rfl⟩)
  rcases List.mem_append.mp listed with plain | hashes
  · exact List.mem_append_left _ plain
  · cases hashing with
    | true => exact List.mem_append_right _ hashes
    | false => cases hashes

theorem Registry.OnlyBuiltinsWrite.register {r r' : Registry} {code : UInt32} {name : String}
    {handler : Handler} (h : r.OnlyBuiltinsWrite)
    (added : r.register code name (some handler) = .ok r')
    (quiet : ∀ (w : World) (a : Arguments), (handler w a).2.memory = w.memory) :
    r'.OnlyBuiltinsWrite := by
  unfold Registry.register at added
  dsimp only at added
  split at added
  · cases added
  · cases added
    intro s member
    rcases List.mem_append.mp member with old | new
    · exact h s old
    · obtain rfl := List.mem_singleton.mp new
      exact .inr quiet

theorem Registry.OnlyBuiltinsWrite.lookup {r : Registry} (h : r.OnlyBuiltinsWrite) (code : UInt32)
    (handler : Handler) (found : r.lookup code = some handler) : KeepsUnwritable handler := by
  obtain ⟨s, member, rfl⟩ := Registry.mem_of_lookup found
  rcases h s member with builtin | quiet
  · exact Registry.keepsUnwritable_standard true s builtin
  · intro w a
    rw [quiet]
    exact .refl _

theorem Cpu.agrees_run {p : Program} {fixed : Permission → Bool}
    (fewer : ∀ q, fixed q = true → q.unwritable = true)
    (host : ∀ code handler, p.lookup code = some handler → ∀ (w : World) (a : Arguments),
      w.memory.Agrees fixed (handler w a).2.memory) (start : Cpu) :
    start.world.memory.Agrees fixed (start.run p).2.world.memory := by
  refine world_run (R := fun w w' => w.memory.Agrees fixed w'.memory)
    (fun _ => .refl _) host ?_ (fun _ _ _ => .trans) start
  intro w memory addr size v written
  exact (RegionTable.agrees_of_store written).mono fewer

namespace Instance

variable {lookup : Lookup} {i j : Instance} {memory : RegionTable} {locals : Store}

theorem run_of_live {fixed : Permission → Bool} (fewer : ∀ p, fixed p = true → p.unwritable = true)
    (quiet : ∀ code handler, lookup code = some handler → ∀ (w : World) (a : Arguments),
      w.memory.Agrees fixed (handler w a).2.memory)
    (live : i.body = .live memory locals) (host : Surroundings) (r1 : UInt64) :
    (i.run lookup host r1).2.1.image = i.image ∧
      ∃ memory' locals', (i.run lookup host r1).2.1.body = .live memory' locals' ∧
        memory.Agrees fixed memory' := by
  rcases run_cases i lookup host r1 with ⟨e, refused⟩ | ⟨image, outcome, s, -, -, ran, ended⟩
  · rw [refused]
    exact ⟨rfl, memory, locals, live, .refl _⟩
  · have start : (i.boot host r1).world.memory = memory := memory_of_live live
    have kept := Cpu.agrees_run (p := .ofText image.text lookup) fewer quiet (i.boot host r1)
    rw [start, ran] at kept
    have left : { i with state := .running, verified := true }.withWorld s.world =
        { i with
          body := .live s.world.memory (s.world.locals.getD locals)
          state := .running
          verified := true } := by
      simp only [withWorld, live]
    rw [ended, settle_eq, left]
    exact ⟨rfl, _, _, rfl, kept⟩

/-- What a call leaves of an instance: the image, and every region but the argument at its place
with its rights, with other bytes only where it grants writing. No argument stays mapped. -/
structure Isolated (i j : Instance) : Prop where
  image : j.image = i.image
  stack : i.memory.stack.Agrees Permission.unwritable j.memory.stack
  data : i.memory.data.Agrees Permission.unwritable j.memory.data
  rodata : i.memory.rodata.Agrees Permission.unwritable j.memory.rodata
  extensions : List.Forall₂ (Region.Agrees Permission.unwritable) i.memory.extensions
    j.memory.extensions
  argument : j.memory.argument.bytes.size = 0

theorem isolated_of_agrees {before after : RegionTable} {a a' : Region}
    (kept : before.Agrees Permission.unwritable after) (image : j.image = i.image)
    (old : i.memory = { before with argument := a })
    (new : j.memory = { after with argument := a' }) (unmapped : a'.bytes.size = 0) :
    i.Isolated j := by
  refine ⟨image, ?_, ?_, ?_, ?_, ?_⟩ <;> rw [new]
  · rw [old]; exact kept.stack
  · rw [old]; exact kept.data
  · rw [old]; exact kept.rodata
  · rw [old]; exact kept.extensions
  · exact unmapped

theorem isolated_of_idle {stack : Bytes} (idle : i.body = .idle stack) : i.Isolated i := by
  have blank : i.memory = .blank := by rw [memory, idle]
  exact isolated_of_agrees (.refl .blank) rfl blank blank (Bytes.size_zeros 0)

section

variable (quiet : ∀ code handler, lookup code = some handler → KeepsUnwritable handler)

include quiet

theorem isolated_execute (i : Instance) (host : Surroundings) (r1 : UInt64) :
    i.Isolated (i.execute lookup host r1).inst := by
  cases body : i.body with
  | idle stack =>
    simp only [execute, isSetUp, body]
    exact isolated_of_idle body
  | live memory locals =>
    simp only [execute, isSetUp, body]
    obtain ⟨image, memory', locals', live', kept⟩ :=
      run_of_live (fun _ => id) quiet (body_mapArgument body (Bytes.zeros 0)) host r1
    rw [image_mapArgument] at image
    have old : i.memory = memory := memory_of_live body
    have new := memory_of_live live'
    exact isolated_of_agrees (a := memory.argument) kept image old new kept.argument.size.symm

theorem isolated_executeContext (i : Instance) (host : Surroundings) (argument : Bytes) :
    i.Isolated (i.executeContext lookup host argument).inst ∧
      (i.executeContext lookup host argument).argument.size = argument.size := by
  cases body : i.body with
  | idle stack =>
    simp only [executeContext, isSetUp, body]
    exact ⟨isolated_of_idle body, rfl⟩
  | live memory locals =>
    simp only [executeContext, isSetUp, body]
    obtain ⟨image, memory', locals', live', kept⟩ :=
      run_of_live (fun _ => id) quiet (body_openArgument (body_mapArgument body argument)) host
        RegionTable.argumentBase
    rw [image_openArgument, image_mapArgument] at image
    have old : i.memory = memory := memory_of_live body
    have new := memory_of_live (body_mapArgument live' (Bytes.zeros 0))
    constructor
    · refine isolated_of_agrees (a := memory.argument) kept ?_ old new (Bytes.size_zeros 0)
      exact (image_mapArgument _ _).trans image
    · have unmapped := memory_of_live live'
      exact (congrArg (·.argument.bytes.size) unmapped).trans kept.argument.size.symm

end

/-- An instance that was set up, whatever the host has mapped and called since. -/
inductive Provisioned : Instance → Prop
  | setup {i j : Instance} (h : i.setup = .ok j) : Provisioned j
  | mapped {i j : Instance} {region : Region} (earlier : Provisioned i)
      (h : i.addRegion region = .ok j) : Provisioned j
  | executed {i : Instance} {r : Registry} (earlier : Provisioned i) (quiet : r.OnlyBuiltinsWrite)
      (host : Surroundings) (r1 : UInt64) : Provisioned (i.execute r.lookup host r1).inst
  | executedContext {i : Instance} {r : Registry} (earlier : Provisioned i)
      (quiet : r.OnlyBuiltinsWrite) (host : Surroundings) (argument : Bytes) :
      Provisioned (i.executeContext r.lookup host argument).inst

def ShowsRodata (i : Instance) : Prop :=
  ∃ image, i.image = some image ∧
    i.memory.rodata = ⟨"rodata", RegionTable.rodataBase, image.rodata, .read⟩

theorem Isolated.showsRodata (h : i.Isolated j) (shown : i.ShowsRodata) : j.ShowsRodata := by
  obtain ⟨image, loaded, rodata⟩ := shown
  refine ⟨image, h.image.trans loaded, ?_⟩
  have kept := h.rodata
  rw [rodata] at kept
  have granted : Permission.read.unwritable = true := by decide
  exact (kept.eq granted).symm

theorem showsRodata_of_setup (h : i.setup = .ok j) : j.ShowsRodata := by
  unfold setup at h
  split at h
  · cases h
  · rename_i image loaded
    dsimp only at h
    split at h
    · cases h
    · cases h
      exact ⟨image, loaded, rfl⟩

theorem showsRodata_of_addRegion {region : Region} (h : i.addRegion region = .ok j)
    (shown : i.ShowsRodata) : j.ShowsRodata := by
  obtain ⟨image, loaded, rodata⟩ := shown
  unfold addRegion at h
  split at h
  · cases h
  · rename_i memory locals live
    rw [memory_of_live live] at rodata
    unfold RegionTable.add at h
    split at h
    · cases h
    · split at h <;> cases h
      exact ⟨image, loaded, rodata⟩

theorem Provisioned.showsRodata (h : i.Provisioned) : i.ShowsRodata := by
  induction h with
  | setup h => exact showsRodata_of_setup h
  | mapped _ h ih => exact showsRodata_of_addRegion h ih
  | executed _ quiet host r1 ih => exact (isolated_execute quiet.lookup _ host r1).showsRodata ih
  | executedContext _ quiet host argument ih =>
    exact (isolated_executeContext quiet.lookup _ host argument).1.showsRodata ih

/-- A call, whatever its end, changes bytes only in regions that grant writing; however often an
instance is called, it shows its program the read-only data of its image. -/
theorem write_isolation {r : Registry} (quiet : r.OnlyBuiltinsWrite) (i : Instance)
    (host : Surroundings) :
    (∀ r1, i.Isolated (i.execute r.lookup host r1).inst) ∧
      (∀ argument, i.Isolated (i.executeContext r.lookup host argument).inst ∧
        (i.executeContext r.lookup host argument).argument.size = argument.size) ∧
      (i.Provisioned → i.ShowsRodata ∧
        (∀ r1, (i.execute r.lookup host r1).inst.ShowsRodata) ∧
        ∀ argument, (i.executeContext r.lookup host argument).inst.ShowsRodata) := by
  refine ⟨?_, ?_, ?_⟩
  · exact isolated_execute quiet.lookup i host
  · exact isolated_executeContext quiet.lookup i host
  · intro provisioned
    refine ⟨provisioned.showsRodata, ?_, ?_⟩
    · intro r1
      exact (provisioned.executed quiet host r1).showsRodata
    · intro argument
      exact (provisioned.executedContext quiet host argument).showsRodata

end Instance

/-- Stores into a region of the host's, then past its end. -/
def windowStores : Container :=
  ContainerSpec.container ⟨1, 0, Bytes.ofList [1, 2, 3], 5, Bytes.ofList [4, 5, 6, 7],
    Text.assemble [0x0000000000000118, 0x0000000500000000, 0x000000070000017a,
      0x000000070008017a, 0x0000000000000095], 0⟩

/-- Two regions of the host's at one address. The one that is consulted first is the shorter and
grants writing; the other one grants reading only. -/
def window : Region := ⟨"window", 0x500000000, Bytes.zeros 8, .readWrite⟩

@[inherit_doc window]
def table : Region := ⟨"table", 0x500000000, Bytes.zeros 64, .read⟩

def overlapping : Instance :=
  let i := Instance.create (some windowStores) none .standard
  let memory :=
    RegionTable.fresh i.stack (Instance.initialData windowStores) windowStores.rodata
  { i with
    body := .live { memory with extensions := [window, table] }
      (.inMemory i.config.localCapacity) }

def readWord : Handler := fun w a =>
  match w.memory.load a.r1 8 with
  | .ok value => (.value value, w)
  | .error e => (.error (.memory e), w)

def loading : Registry := ⟨(Registry.standard true).syscalls ++ [⟨0x40, "load", readWord⟩]⟩

theorem write_isolation_overlapping :
    let host : Surroundings := ⟨.inMemory 16, .silent, 0⟩
    loading.OnlyBuiltinsWrite ∧ overlapping.Provisioned ∧
      overlapping.Isolated (overlapping.execute loading.lookup host 7).inst ∧
      (overlapping.executeContext loading.lookup host (Bytes.zeros 12)).inst.ShowsRodata := by
  intro host
  have added : (Registry.standard true).register 0x40 "load" (some readWord) = .ok loading := rfl
  have reads (w : World) (a : Arguments) : (readWord w a).2 = w := by
    unfold readWord
    split <;> rfl
  have quiet := (Registry.onlyBuiltinsWrite_standard true).register added fun w a => by
    rw [reads]
  have provisioned : overlapping.Provisioned :=
    .mapped (.mapped
      (.setup (show (Instance.create (some windowStores) none .standard).setup = .ok _ from rfl))
      (show Instance.addRegion _ table = .ok _ from rfl))
      (show Instance.addRegion _ window = .ok overlapping from rfl)
  obtain ⟨plain, -, shown⟩ := Instance.write_isolation quiet overlapping host
  exact ⟨quiet, provisioned, plain 7, (shown provisioned).2.2 (Bytes.zeros 12)⟩

end BytecodeVm
