import BytecodeVm.Proofs.ByteStrings
import BytecodeVm.Proofs.ControlFlow
import BytecodeVm.Proofs.Machines
import BytecodeVm.Proofs.Sessions
import BytecodeVm.Proofs.Simulation

/-! No residue. Loading a container makes a machine as good as new: of all that went before only the
registry, the global store, the clock and what stands on the console are left, and a program cannot
see the console. The first part is about one load, whatever the machine went through before; the
second about two machines whose consoles differ, and all that is done with them. -/
namespace BytecodeVm

theorem Bytes.clear_eq (b : Bytes) : b.clear = zeros b.size := by
  rw [clear, overwrite, ByteArray.copySlice_eq_append]
  apply ByteArray.ext
  simp

/-! ## Loading -/

namespace Machine

variable {config : InstanceConfig} {m : Machine}

theorem provideStack_eq (m : Machine) (size : Nat) : m.provideStack size = Bytes.zeros size := by
  unfold provideStack
  split
  · rename_i same
    rw [Bytes.clear_eq, same]
  · rfl

structure Keeps (config : InstanceConfig) (m : Machine) : Prop where
  config : m.config = config
  inst : ∀ i, m.inst = some i → i.config.locals = none

theorem keeps_create (config : InstanceConfig) (registry : Registry) (globals : Option Store) :
    Keeps config (create config registry globals) :=
  ⟨rfl, fun _ loaded => by cases loaded⟩

section

variable (own : config.locals = none)

include own

theorem Keeps.unload_eq (h : Keeps config m) :
    m.unload =
      ⟨config, m.registry, m.globals, m.console, m.clock, none, none, m.unload.spare, none⟩ := by
  have same : { m.config with locals := none } = config := by rw [h.config, ← own]
  unfold Machine.unload
  rcases Option.eq_none_or_eq_some m.inst with missing | ⟨i, loaded⟩
  · simp only [missing, h.config]
  · simp only [loaded, Instance.destroy, h.inst i loaded, same]

theorem Keeps.unload (h : Keeps config m) : Keeps config m.unload := by
  rw [h.unload_eq own]
  exact ⟨rfl, fun _ loaded => by cases loaded⟩

theorem Keeps.load_eq (h : Keeps config m) (image : Option Container) (stackSize : Int) :
    m.load image stackSize =
      (((create config m.registry m.globals).load image stackSize).1,
        { ((create config m.registry m.globals).load image stackSize).2 with
          console := m.console
          clock := m.clock }) := by
  unfold load
  dsimp only
  rw [provideStack_eq, provideStack_eq, h.unload_eq own,
    (keeps_create config m.registry m.globals).unload_eq own]
  dsimp only
  split <;> rfl

theorem Keeps.load (h : Keeps config m) (image : Option Container) (stackSize : Int) :
    Keeps config (m.load image stackSize).2 := by
  unfold Machine.load
  dsimp only
  rw [h.unload_eq own]
  split
  · exact ⟨rfl, fun _ loaded => by cases loaded⟩
  · rename_i i up
    refine ⟨rfl, fun j loaded => ?_⟩
    cases loaded
    obtain ⟨_, _, -, rfl⟩ := Instance.setup_eq_ok up
    exact own

end

theorem Keeps.retains {config : InstanceConfig} {m n : Machine} (h : Keeps config m)
    (same : m.Retains n) : Keeps config n := by
  refine ⟨same.config.trans h.config, fun j found => ?_⟩
  rcases Option.eq_none_or_eq_some m.inst with missing | ⟨i, loaded⟩
  · cases (same.missing missing).symm.trans found
  · obtain ⟨k, next, continues⟩ := same.inst i loaded
    cases next.symm.trans found
    rw [continues.config]
    exact h.inst i loaded

end Machine

theorem Hosted.keeps_perform {config : InstanceConfig} (own : config.locals = none) {h : Hosted}
    (kept : h.machine.Keeps config) (a : HostAction) : (h.perform a).2.machine.Keeps config := by
  have change := h.changes_perform a
  generalize (h.perform a).2.machine = m at change ⊢
  cases change with
  | loaded | loadedBytes => exact kept.load own _ _
  | refused => exact kept
  | unloaded => exact kept.unload own
  | used _ change => exact kept.retains change.retains

/-! ## Consoles with a past -/

def Console.behind (past : Bytes) (c : Console) : Console := { c with written := past ++ c.written }

def Surroundings.behind (past : Bytes) (host : Surroundings) : Surroundings :=
  { host with console := host.console.behind past }

def World.behind (past : Bytes) (w : World) : World := { w with host := w.host.behind past }

/-- The console is a stream to the function: it may write to it but does not see what stands there.
-/
def WriteOnly (handler : Handler) : Prop :=
  ∀ (past : Bytes) (w : World) (a : Arguments),
    handler (w.behind past) a = ((handler w a).1, (handler w a).2.behind past)

theorem Console.write_behind (past : Bytes) (c : Console) (bytes : List UInt8) :
    (c.behind past).write bytes = (c.write bytes).map (behind past) := by
  unfold write
  simp only [behind]
  split
  · rfl
  · simp only [Except.map, behind, ByteArray.append_assoc]

theorem Console.eq_behind (c : Console) : c = behind c.written ⟨Bytes.zeros 0, c.failure⟩ := by
  have empty : c.written ++ Bytes.zeros 0 = c.written := by
    apply ByteArray.ext
    simp [Bytes.zeros_eq]
  simp only [behind, empty]

theorem World.memory_behind (past : Bytes) (w : World) : (w.behind past).memory = w.memory := rfl

theorem World.console_behind (past : Bytes) (w : World) :
    (w.behind past).host.console = w.host.console.behind past := rfl

theorem World.setStore_behind (past : Bytes) (w : World) (scope : StoreScope) (s : Store) :
    (w.behind past).setStore scope s = (w.setStore scope s).behind past := by
  cases scope <;> rfl

theorem World.store_behind (past : Bytes) (w : World) (scope : StoreScope) :
    (w.behind past).store scope = w.store scope := by
  cases scope <;> rfl

namespace Builtin

theorem writeOnly_printf : WriteOnly printf := by
  intro past w a
  unfold printf
  rw [World.memory_behind, World.console_behind]
  split
  · rfl
  · split
    · rfl
    · rw [Console.write_behind]
      cases w.host.console.write _ <;> rfl

theorem writeOnly_memcpy : WriteOnly memcpy := by
  intro past w a
  unfold memcpy
  rw [World.memory_behind]
  split
  · rfl
  · split
    · rfl
    · split <;> rfl

theorem writeOnly_store (scope : StoreScope) : WriteOnly (store scope) := by
  intro past w a
  unfold store
  rw [World.store_behind]
  split
  · rfl
  · split
    · rfl
    · rw [World.setStore_behind]

theorem writeOnly_fetch (scope : StoreScope) : WriteOnly (fetch scope) := by
  intro past w a
  unfold fetch
  rw [World.store_behind, World.memory_behind]
  split
  · rfl
  · split
    · rfl
    · split
      · rfl
      · rw [World.setStore_behind]
        rfl

theorem writeOnly_hash (digest : Bytes → List UInt8) : WriteOnly (hash digest) := by
  intro past w a
  unfold hash
  rw [World.memory_behind]
  split
  · rfl
  · split <;> rfl

end Builtin

def Registry.WriteOnly (r : Registry) : Prop :=
  ∀ code handler, r.lookup code = some handler → BytecodeVm.WriteOnly handler

theorem Registry.writeOnly_standard (hashing : Bool) : (Registry.standard hashing).WriteOnly := by
  intro code handler found
  obtain ⟨s, member, rfl⟩ := Registry.mem_of_lookup found
  exact Registry.forall_mem_standard Builtin.writeOnly_printf Builtin.writeOnly_memcpy
    Builtin.writeOnly_store Builtin.writeOnly_fetch (fun _ _ _ => rfl) (Builtin.writeOnly_hash _)
    (Builtin.writeOnly_hash _) hashing s member

theorem Registry.WriteOnly.bisimulation {r : Registry} (h : r.WriteOnly) (past : Bytes) :
    World.Bisimulation r.lookup fun w w' => w' = w.behind past where
  load := by
    rintro w _ rfl addr size
    rfl
  write := by
    rintro w _ rfl addr bytes
    rw [World.memory_behind]
    cases w.memory.write addr bytes with
    | error e => exact .inl ⟨e, rfl, rfl⟩
    | ok u => exact .inr ⟨u, u, rfl, rfl, rfl⟩
  call := by
    rintro code handler found w _ rfl a
    rw [h code handler found past w a]
    exact ⟨rfl, rfl⟩

namespace Instance

variable {r : Registry} (writeOnly : r.WriteOnly) (past : Bytes)

theorem withWorld_behind (i : Instance) (w : World) :
    i.withWorld (w.behind past) = i.withWorld w := by
  cases h : i.body <;> simp only [withWorld, h, World.behind]

include writeOnly

theorem run_behind (i : Instance) (host : Surroundings) (r1 : UInt64) :
    i.run r.lookup (host.behind past) r1 =
      ((i.run r.lookup host r1).1, (i.run r.lookup host r1).2.1,
        (i.run r.lookup host r1).2.2.behind past) := by
  cases verified : i.verify r.lookup with
  | error e => rw [run_of_rejected verified, run_of_rejected verified]
  | ok j =>
    have passed := (verify_eq_ok_iff.mp verified).1
    rcases Option.eq_none_or_eq_some i.image with missing | ⟨image, loaded⟩
    · rw [run_of_missing missing, run_of_missing missing]
    · obtain ⟨w, ran, rfl⟩ := Cpu.related_run (p := .ofText image.text r.lookup)
        (writeOnly.bisimulation past) (i.boot host r1) rfl
      have start : i.boot (host.behind past) r1 =
          { i.boot host r1 with world := (i.boot host r1).world.behind past } := rfl
      rw [run_of_passed loaded passed, run_of_passed loaded passed, start, ran, settle_eq,
        settle_eq, withWorld_behind]
      rfl

end Instance

theorem MachineCall.execution_behind {r : Registry} (writeOnly : r.WriteOnly) (past : Bytes)
    (call : MachineCall) (i : Instance) (host : Surroundings) :
    call.execution i r.lookup (host.behind past) =
      { call.execution i r.lookup host with
        host := (call.execution i r.lookup host).host.behind past } := by
  cases up : i.isSetUp with
  | false =>
    rcases call with r1 | _ | argument <;>
      simp only [execution, Instance.execute_of_idle up, Instance.executeContext_of_idle up]
  | true =>
    rcases call with r1 | _ | argument <;>
      simp only [execution, Instance.execute_of_setUp up, Instance.executeContext_of_setUp up,
        Instance.run_behind writeOnly past]

/-! ## Machines with a past -/

def Machine.behind (past : Bytes) (m : Machine) : Machine :=
  { m with console := m.console.behind past }

def Hosted.behind (past : Bytes) (h : Hosted) : Hosted :=
  { h with machine := h.machine.behind past }

namespace Machine

variable (past : Bytes) (m : Machine)

theorem finish_behind (shared : Store) (e : Execution) :
    (m.behind past).finish shared { e with host := e.host.behind past } =
      { m.finish shared e with machine := (m.finish shared e).machine.behind past } := by
  unfold finish
  rw [show (m.behind past).globals = m.globals from rfl]
  cases m.globals <;> cases e.result <;> rfl

theorem perform_behind (writeOnly : m.registry.WriteOnly) (shared : Store) (call : MachineCall) :
    call.perform (m.behind past) shared =
      { call.perform m shared with machine := (call.perform m shared).machine.behind past } := by
  rcases Option.eq_none_or_eq_some m.inst with missing | ⟨i, loaded⟩
  · have missing' : (m.behind past).inst = none := missing
    rw [MachineCall.perform_of_unloaded missing, MachineCall.perform_of_unloaded missing']
    rfl
  · have loaded' : (m.behind past).inst = some i := loaded
    rw [MachineCall.perform_of_loaded loaded, MachineCall.perform_of_loaded loaded',
      ← finish_behind]
    have host : (m.behind past).surroundings shared = (m.surroundings shared).behind past := rfl
    rw [host]
    exact congrArg _ (MachineCall.execution_behind writeOnly past call i (m.surroundings shared))

theorem unload_behind : (m.behind past).unload = m.unload.behind past := by
  cases h : m.inst <;> simp only [unload, behind, h]

theorem load_behind (image : Option Container) (stackSize : Int) :
    (m.behind past).load image stackSize =
      ((m.load image stackSize).1, (m.load image stackSize).2.behind past) := by
  unfold load
  dsimp only
  rw [unload_behind, provideStack_eq, provideStack_eq,
    show (m.unload.behind past).config = m.unload.config from rfl]
  split <;> rfl

theorem localUpdate_behind (key value : UInt32) :
    (m.behind past).localUpdate key value = (m.localUpdate key value).map (behind past) := by
  unfold localUpdate
  rw [show (m.behind past).locals = m.locals from rfl]
  split
  · rfl
  · split <;> rfl

theorem localFetch_behind (key : UInt32) :
    (m.behind past).localFetch key =
      (m.localFetch key).map fun fetched => (fetched.1, fetched.2.behind past) := by
  unfold localFetch
  rw [show (m.behind past).locals = m.locals from rfl]
  split
  · rfl
  · split <;> rfl

theorem registry_unload : m.unload.registry = m.registry := by
  unfold unload
  split <;> rfl

theorem registry_load (image : Option Container) (stackSize : Int) :
    (m.load image stackSize).2.registry = m.registry := by
  unfold load
  dsimp only
  split <;> exact m.registry_unload

theorem registry_finish (shared : Store) (e : Execution) :
    (m.finish shared e).machine.registry = m.registry := by
  unfold finish
  cases e.result <;> rfl

end Machine

def HostAction.WriteOnly : HostAction → Prop
  | .register _ _ (some handler) => BytecodeVm.WriteOnly handler
  | _ => True

namespace Hosted

variable {h : Hosted} {a : HostAction}

theorem writeOnly_perform (writeOnly : h.machine.registry.WriteOnly) (added : a.WriteOnly) :
    (h.perform a).2.machine.registry.WriteOnly := by
  have change := h.changes_perform a
  generalize (h.perform a).2.machine = m at change ⊢
  cases change with
  | loaded | loadedBytes => rwa [Machine.registry_load]
  | refused => exact writeOnly
  | unloaded => rwa [Machine.registry_unload]
  | used _ change =>
    cases change with
    | nothing | failed | inst | locals | around => exact writeOnly
    | ran shared => rwa [Machine.registry_finish]
    | registered registered =>
      intro code f found
      rcases Registry.lookup_of_register registered found with rfl | known
      · exact added
      · exact writeOnly code f known

theorem perform_behind (past : Bytes) (writeOnly : h.machine.registry.WriteOnly) (a : HostAction) :
    (h.behind past).perform a = ((h.perform a).1, (h.perform a).2.behind past) := by
  cases a with
  | load image stackSize => simp only [perform, behind, Machine.load_behind]
  | loadBytes image stackSize =>
    simp only [perform, behind, Machine.loadBytes, Machine.load_behind]
    split <;> rfl
  | unload => simp only [perform, behind, Machine.unload_behind]
  | call c =>
    simp only [perform, behind, Machine.perform_behind past h.machine writeOnly]
  | verify | addRegion =>
    simp only [perform, behind, Machine.behind]
    split
    · rfl
    · split <;> rfl
  | localUpdate key value =>
    simp only [perform, behind, Machine.localUpdate_behind]
    cases h.machine.localUpdate key value <;> rfl
  | localFetch key =>
    simp only [perform, behind, Machine.localFetch_behind]
    cases h.machine.localFetch key <;> rfl
  | register code name handler =>
    simp only [perform, behind, Machine.behind]
    split <;> rfl
  | localRange | localSize | setClock | setShared | setFailure => rfl

theorem observe_eq {past : Bytes} {g : Hosted}
    (before : h.machine.console.written = past ++ g.machine.console.written)
    (same : h.perform a = ((g.perform a).1, (g.perform a).2.behind past)) :
    h.observe a = g.observe a := by
  have output : ∀ written : Bytes,
      (Bytes.toList (past ++ written)).drop (Bytes.toList h.machine.console.written).length =
        (Bytes.toList written).drop (Bytes.toList g.machine.console.written).length := by
    intro written
    rw [before, Bytes.toList_append, Bytes.toList_append, List.length_append, ← List.drop_drop,
      List.drop_left]
  simp only [observe, same]
  simp only [behind, Machine.behind, Console.behind, output]
  rfl

theorem observations_behind (past : Bytes) {actions : List HostAction} {h : Hosted}
    (writeOnly : h.machine.registry.WriteOnly) (added : ∀ a ∈ actions, a.WriteOnly) :
    (h.behind past).observations actions = h.observations actions := by
  induction actions generalizing h with
  | nil => rfl
  | cons a rest ih =>
    have next := writeOnly_perform writeOnly (added a List.mem_cons_self)
    have others : ∀ b ∈ rest, b.WriteOnly := fun b member => added b (List.mem_cons_of_mem a member)
    rw [observations, observations, observe_eq rfl (perform_behind past writeOnly a),
      perform_behind past writeOnly]
    exact congrArg _ (ih next others)

theorem writeOnly_after {actions : List HostAction} {h : Hosted}
    (writeOnly : h.machine.registry.WriteOnly) (added : ∀ a ∈ actions, a.WriteOnly) :
    (h.after actions).machine.registry.WriteOnly :=
  after_induction (P := fun h => h.machine.registry.WriteOnly) writeOnly
    fun _ a member kept => writeOnly_perform kept (added a member)

/-- A machine that was just created, with the configuration `config` and an empty console, in the
place of the one of `h`. -/
def renewed (h : Hosted) (config : InstanceConfig) : Hosted :=
  { h with
    machine :=
      { Machine.create config h.machine.registry h.machine.globals with
        clock := h.machine.clock
        console := ⟨Bytes.zeros 0, h.machine.console.failure⟩ } }

theorem load_renewed {config : InstanceConfig} (own : config.locals = none)
    (kept : h.machine.Keeps config) (image : Option Container) (stackSize : Int) :
    h.perform (.load image stackSize) =
      (((h.renewed config).perform (.load image stackSize)).1,
        ((h.renewed config).perform (.load image stackSize)).2.behind
          h.machine.console.written) := by
  have fresh : (h.renewed config).machine.Keeps config := ⟨rfl, fun _ loaded => by cases loaded⟩
  simp only [perform]
  rw [kept.load_eq own, fresh.load_eq own]
  simp only [behind, Machine.behind, renewed]
  rw [← Console.eq_behind]
  rfl

/-- Whatever was done with a machine that has no local store lent to it: once a container is loaded,
or could not be, the machine is what a new one would be but for what stands on the console; and if
no host function sees that, nothing that is done afterwards tells the two apart. -/
theorem no_residue {config : InstanceConfig} (own : config.locals = none) (registry : Registry)
    (globals : Option Store) (shared : Store) (history : List HostAction) (image : Option Container)
    (stackSize : Int) :
    let old := (Hosted.mk (.create config registry globals) shared).after history
    let new := old.renewed config
    old.perform (.load image stackSize) =
        ((new.perform (.load image stackSize)).1,
          (new.perform (.load image stackSize)).2.behind old.machine.console.written) ∧
      (old.machine.registry.WriteOnly → ∀ later : List HostAction, (∀ a ∈ later, a.WriteOnly) →
        old.observations (.load image stackSize :: later) =
          new.observations (.load image stackSize :: later)) := by
  intro old new
  have kept : old.machine.Keeps config :=
    after_induction (P := fun h => h.machine.Keeps config) (Machine.keeps_create ..)
      fun _ a _ kept => keeps_perform own kept a
  have loaded := load_renewed own kept image stackSize
  refine ⟨loaded, fun writeOnly later added => ?_⟩
  have next : (new.perform (.load image stackSize)).2.machine.registry.WriteOnly :=
    writeOnly_perform (h := new) writeOnly trivial
  have first : old.observe (.load image stackSize) = new.observe (.load image stackSize) :=
    observe_eq (congrArg Console.written (Console.eq_behind _)) loaded
  rw [observations, observations, first, loaded]
  exact congrArg _ (observations_behind _ next added)

end Hosted

/-- Writes its argument to the top of the stack. -/
def storesSecret : Container := .ofWords [0x00000000fff81a7b, 0x0000000000000095]

/-- Answers what stands at the top of the stack. -/
def readsSecret : Container := .ofWords [0x00000000fff8a079, 0x0000000000000095]

def leavesSecrets : List HostAction :=
  [.load (some storesSecret) 16, .call (.value 7), .localUpdate 3 4,
    .addRegion ⟨"window", 0x500000000, Bytes.zeros 8, .readWrite⟩,
    .register 64 "echo" (some fun w a => (.value a.r1, w)), .setClock 5, .load none 16]

theorem no_residue_of_leavesSecrets :
    let start : Hosted := ⟨.create .standard (.standard true) none, .inMemory 16⟩
    let old := start.after leavesSecrets
    let later : List HostAction := [.call (.value 0), .localRange none]
    InstanceConfig.standard.locals = none ∧ old.machine.registry.WriteOnly ∧
      (∀ a ∈ later, a.WriteOnly) ∧
      old.observations (.load (some readsSecret) 16 :: later) =
        (old.renewed .standard).observations (.load (some readsSecret) 16 :: later) := by
  intro start old later
  have echo : WriteOnly fun w a => (.value a.r1, w) := fun _ _ _ => rfl
  have history : ∀ a ∈ leavesSecrets, a.WriteOnly := by
    simp only [leavesSecrets, List.forall_mem_cons]
    exact ⟨trivial, trivial, trivial, trivial, echo, trivial, trivial, nofun⟩
  have writeOnly : old.machine.registry.WriteOnly :=
    Hosted.writeOnly_after (Registry.writeOnly_standard true) history
  have added : ∀ a ∈ later, a.WriteOnly := by
    simp only [later, List.forall_mem_cons]
    exact ⟨trivial, trivial, fun _ member => by cases member⟩
  exact ⟨rfl, writeOnly, added,
    (Hosted.no_residue rfl (.standard true) none (.inMemory 16) leavesSecrets _ 16).2 writeOnly _
      added⟩

end BytecodeVm
