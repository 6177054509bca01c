import BytecodeVm.Machine
import BytecodeVm.Proofs.Calls
import BytecodeVm.Proofs.Steps

/-! Machines under any sequence of operations. A call of a machine is a call of its instance; the
other operations are those on the machine, on its instance and on the process around them. After
each operation the host sees an observation: the answer, all of the instance, the last error, the
global store and what was written to the console. -/
namespace BytecodeVm

inductive MachineCall
  | value (r1 : UInt64)
  | context (argument : Option Bytes)

namespace MachineCall

def perform (m : Machine) (shared : Store) : MachineCall → MachineRun
  | .value r1 => m.executeValue shared r1
  | .context argument => m.execute shared argument

def execution (i : Instance) (lookup : Lookup) (host : Surroundings) : MachineCall → Execution
  | .value r1 => i.execute lookup host r1
  | .context none => i.execute lookup host 0
  | .context (some argument) => i.executeContext lookup host argument

def prepare (i : Instance) : MachineCall → Instance
  | .value _ | .context none => i.mapArgument (Bytes.zeros 0)
  | .context (some argument) => (i.mapArgument argument).openArgument

def register : MachineCall → UInt64
  | .value r1 => r1
  | .context none => 0
  | .context (some _) => RegionTable.argumentBase

def argument : MachineCall → Bytes
  | .value _ | .context none => Bytes.zeros 0
  | .context (some argument) => argument

theorem perform_of_unloaded {m : Machine} (unloaded : m.inst = none) (shared : Store)
    (call : MachineCall) :
    call.perform m shared =
      ⟨Machine.unloadedResult, { m with lastError := some .notSetUp }, shared, call.argument⟩ := by
  rcases call with r1 | _ | argument <;>
    simp only [perform, Machine.executeValue, Machine.execute, unloaded, MachineCall.argument]

theorem perform_of_loaded {m : Machine} {i : Instance} (loaded : m.inst = some i) (shared : Store)
    (call : MachineCall) :
    call.perform m shared =
      m.finish shared (call.execution i m.registry.lookup (m.surroundings shared)) := by
  rcases call with r1 | _ | argument <;>
    simp only [perform, Machine.executeValue, Machine.execute, loaded, execution]

theorem result_of_idle {i : Instance} (down : i.isSetUp = false) (lookup : Lookup)
    (host : Surroundings) (call : MachineCall) :
    (call.execution i lookup host).result = .error .notSetUp := by
  rcases call with r1 | _ | argument <;>
    simp only [execution, Instance.execute_of_idle down, Instance.executeContext_of_idle down]

theorem result_of_setUp {i : Instance} (up : i.isSetUp = true) (lookup : Lookup)
    (host : Surroundings) (call : MachineCall) :
    (call.execution i lookup host).result =
      ((call.prepare i).run lookup host call.register).1 := by
  rcases call with r1 | _ | argument <;>
    simp only [execution, Instance.execute_of_setUp up, Instance.executeContext_of_setUp up,
      prepare, register]

end MachineCall

namespace Instance

/-- The second instance has the image, the configuration and the branch limit of the first, and is
set up if the first one is. -/
structure Continues (i j : Instance) : Prop where
  image : j.image = i.image
  config : j.config = i.config
  isSetUp : j.isSetUp = i.isSetUp
  limit : j.budget.limit = i.budget.limit

theorem Continues.refl (i : Instance) : i.Continues i := ⟨rfl, rfl, rfl, rfl⟩

theorem Continues.trans {i j k : Instance} (h : i.Continues j) (h' : j.Continues k) :
    i.Continues k where
  image := h'.image.trans h.image
  config := h'.config.trans h.config
  isSetUp := h'.isSetUp.trans h.isSetUp
  limit := h'.limit.trans h.limit

theorem continues_withWorld (i : Instance) (w : World) : i.Continues (i.withWorld w) := by
  obtain ⟨body, kept⟩ := exists_body_withWorld i w
  refine ⟨by rw [kept], by rw [kept], ?_, by rw [kept]⟩
  cases shape : i.body <;> simp [withWorld, isSetUp, shape]

theorem continues_mapArgument (i : Instance) (bytes : Bytes) :
    i.Continues (i.mapArgument bytes) := by
  obtain ⟨body, kept⟩ := exists_body_mapArgument i bytes
  refine ⟨by rw [kept], by rw [kept], ?_, by rw [kept]⟩
  cases shape : i.body <;> simp [mapArgument, isSetUp, shape]

theorem continues_openArgument (i : Instance) : i.Continues i.openArgument := by
  obtain ⟨body, kept⟩ := exists_body_openArgument i
  refine ⟨by rw [kept], by rw [kept], ?_, by rw [kept]⟩
  cases shape : i.body <;> simp [openArgument, isSetUp, shape]

theorem continues_run (i : Instance) (lookup : Lookup) (host : Surroundings) (r1 : UInt64) :
    i.Continues (i.run lookup host r1).2.1 := by
  rcases run_cases i lookup host r1 with ⟨e, refused⟩ | ⟨image, outcome, s, -, -, ended, ran⟩
  · rw [refused]
    exact ⟨rfl, rfl, rfl, rfl⟩
  · have kept := continues_withWorld { i with state := .running, verified := true } s.world
    have limit := Cpu.limit_run (.ofText image.text lookup) (i.boot host r1)
    rw [ended] at limit
    rw [ran, settle_eq]
    exact ⟨kept.image, kept.config, kept.isSetUp, limit⟩

end Instance

theorem MachineCall.continues_execution (call : MachineCall) (i : Instance) (lookup : Lookup)
    (host : Surroundings) : i.Continues (call.execution i lookup host).inst := by
  have value (r1 : UInt64) : i.Continues (i.execute lookup host r1).inst := by
    cases up : i.isSetUp with
    | false =>
      rw [Instance.execute_of_idle up]
      exact .refl i
    | true =>
      rw [Instance.execute_of_setUp up]
      exact (i.continues_mapArgument _).trans (Instance.continues_run _ _ _ _)
  rcases call with r1 | _ | argument
  · exact value r1
  · exact value 0
  · simp only [execution]
    cases up : i.isSetUp with
    | false =>
      rw [Instance.executeContext_of_idle up]
      exact .refl i
    | true =>
      rw [Instance.executeContext_of_setUp up]
      exact (((i.continues_mapArgument _).trans (Instance.continues_openArgument _)).trans
        (Instance.continues_run _ _ _ _)).trans (Instance.continues_mapArgument _ _)

namespace Machine

variable {m n : Machine} {key value : UInt32}

theorem localUpdate_eq_ok (h : m.localUpdate key value = .ok n) : ∃ s, n = m.setLocals s := by
  unfold localUpdate at h
  split at h
  · cases h
  · split at h <;> cases h
    exact ⟨_, rfl⟩

theorem localFetch_eq_ok (h : m.localFetch key = .ok (value, n)) : ∃ s, n = m.setLocals s := by
  unfold localFetch at h
  split at h
  · cases h
  · split at h <;> cases h
    exact ⟨_, rfl⟩

end Machine

inductive HostAction
  | load (image : Option Container) (stackSize : Int)
  | loadBytes (image : Bytes) (stackSize : Int)
  | unload
  | call (c : MachineCall)
  | verify
  | addRegion (r : Region)
  | localUpdate (key value : UInt32)
  | localFetch (key : UInt32)
  | localRange (count : Option Nat)
  | localSize
  | register (code : UInt32) (name : String) (handler : Option Handler)
  | setClock (clock : Int)
  | setShared (s : Store)
  | setFailure (e : Option HostError)

/-- What an operation answers. No error of a load means success, and no result of a verification or
a mapping that there is no instance. -/
inductive HostAnswer
  | done
  | loaded (e : Option LoadError)
  | ran (result : Int64) (argument : Bytes)
  | verified (r : Option (Except RunError Unit))
  | mapped (r : Option (Except MappingError Unit))
  | updated (r : Except LocalError Unit)
  | fetched (r : Except LocalError UInt32)
  | listed (r : Except LocalError (List Entry))
  | counted (n : Nat)
  | registered (r : Except RegistryError Unit)

structure Hosted where
  machine : Machine
  shared : Store

structure Observation where
  answer : HostAnswer
  inst : Option Instance
  lastError : Option RunError
  globals : Store
  output : List UInt8

namespace Hosted

def perform (h : Hosted) : HostAction → HostAnswer × Hosted
  | .load image stackSize =>
    let (e, m) := h.machine.load image stackSize
    (.loaded e, { h with machine := m })
  | .loadBytes image stackSize =>
    let (e, m) := h.machine.loadBytes image stackSize
    (.loaded e, { h with machine := m })
  | .unload => (.done, { h with machine := h.machine.unload })
  | .call c =>
    let run := c.perform h.machine h.shared
    (.ran run.result run.argument, ⟨run.machine, run.shared⟩)
  | .verify =>
    match h.machine.inst with
    | none => (.verified none, h)
    | some i => match i.verify h.machine.registry.lookup with
      | .error e => (.verified (some (.error e)), h)
      | .ok i => (.verified (some (.ok ())), { h with machine.inst := some i })
  | .addRegion r =>
    match h.machine.inst with
    | none => (.mapped none, h)
    | some i => match i.addRegion r with
      | .error e => (.mapped (some (.error e)), h)
      | .ok i => (.mapped (some (.ok ())), { h with machine.inst := some i })
  | .localUpdate key value =>
    match h.machine.localUpdate key value with
    | .error e => (.updated (.error e), h)
    | .ok m => (.updated (.ok ()), { h with machine := m })
  | .localFetch key =>
    match h.machine.localFetch key with
    | .error e => (.fetched (.error e), h)
    | .ok (value, m) => (.fetched (.ok value), { h with machine := m })
  | .localRange count => (.listed (h.machine.localRange count), h)
  | .localSize => (.counted h.machine.localSize, h)
  | .register code name handler =>
    match h.machine.registry.register code name handler with
    | .error e => (.registered (.error e), h)
    | .ok r => (.registered (.ok ()), { h with machine.registry := r })
  | .setClock clock => (.done, { h with machine.clock := clock })
  | .setShared s => (.done, { h with shared := s })
  | .setFailure e => (.done, { h with machine.console.failure := e })

end Hosted

def HostAction.isLoading : HostAction → Bool
  | .load .. | .loadBytes .. | .unload => true
  | _ => false

/-- What any other operation can make of a machine. -/
inductive Machine.Uses (m : Machine) : HostAction → Machine → Prop
  | nothing {a : HostAction} : Uses m a m
  | failed {a : HostAction} (missing : m.inst = none) :
      Uses m a { m with lastError := some .notSetUp }
  | ran {a : HostAction} {i : Instance} {e : Execution} (shared : Store) (loaded : m.inst = some i)
      (same : i.Continues e.inst) : Uses m a (m.finish shared e).machine
  | inst {a : HostAction} {i j : Instance} (loaded : m.inst = some i) (same : i.Continues j) :
      Uses m a { m with inst := some j }
  | locals {a : HostAction} (s : Store) : Uses m a (m.setLocals s)
  | registered {code : UInt32} {name : String} {handler : Option Handler} {r : Registry}
      (added : m.registry.register code name handler = .ok r) :
      Uses m (.register code name handler) { m with registry := r }
  | around {a : HostAction} (clock : Int) (failure : Option HostError) :
      Uses m a { m with clock := clock, console.failure := failure }

/-- The machine `n` has the container and the configuration of `m` still, and an instance that
continues the one of `m`. -/
structure Machine.Retains (m n : Machine) : Prop where
  image : n.image = m.image
  config : n.config = m.config
  missing : m.inst = none → n.inst = none
  inst : ∀ i, m.inst = some i → ∃ j, n.inst = some j ∧ i.Continues j

theorem Machine.Retains.refl (m : Machine) : m.Retains m :=
  ⟨rfl, rfl, id, fun i found => ⟨i, found, .refl i⟩⟩

theorem Machine.Retains.trans {l m n : Machine} (h : l.Retains m) (h' : m.Retains n) :
    l.Retains n where
  image := h'.image.trans h.image
  config := h'.config.trans h.config
  missing none := h'.missing (h.missing none)
  inst i found := by
    obtain ⟨j, next, first⟩ := h.inst i found
    obtain ⟨k, final, second⟩ := h'.inst j next
    exact ⟨k, final, first.trans second⟩

theorem Machine.Uses.retains {m n : Machine} {a : HostAction} (change : m.Uses a n) :
    m.Retains n := by
  cases change with
  | nothing => exact .refl m
  | failed | registered | around => exact ⟨rfl, rfl, id, (Machine.Retains.refl m).inst⟩
  | @ran _ i e shared loaded same =>
    have next : (m.finish shared e).machine.inst = some e.inst := by
      unfold Machine.finish
      cases e.result <;> rfl
    refine ⟨?_, ?_, fun missing => ?_, fun j found => ⟨e.inst, next, ?_⟩⟩
    · unfold Machine.finish
      cases e.result <;> rfl
    · unfold Machine.finish
      cases e.result <;> rfl
    · cases missing.symm.trans loaded
    · cases loaded.symm.trans found
      exact same
  | @inst _ i j loaded same =>
    refine ⟨rfl, rfl, fun missing => ?_, fun k found => ⟨j, rfl, ?_⟩⟩
    · cases missing.symm.trans loaded
    · cases loaded.symm.trans found
      exact same
  | locals s =>
    refine ⟨rfl, rfl, fun missing => ?_, fun i found => ?_⟩
    · rw [setLocals, missing, Option.map_none]
    · simp only [setLocals, found, Option.map_some]
      cases body : i.body with
      | idle => exact ⟨i, rfl, .refl i⟩
      | live => exact ⟨_, rfl, rfl, rfl, (Instance.isSetUp_of_live body).symm, rfl⟩

inductive Machine.Changes (m : Machine) : HostAction → Machine → Prop
  | loaded (image : Option Container) (stackSize : Int) :
      Changes m (.load image stackSize) (m.load image stackSize).2
  | refused {bytes : Bytes} {e : ContainerError} (broken : Container.parse bytes = .error e)
      (stackSize : Int) : Changes m (.loadBytes bytes stackSize) m
  | loadedBytes {bytes : Bytes} {c : Container} (parsed : Container.parse bytes = .ok c)
      (stackSize : Int) : Changes m (.loadBytes bytes stackSize) (m.load (some c) stackSize).2
  | unloaded : Changes m .unload m.unload
  | used {a : HostAction} {n : Machine} (other : a.isLoading = false) (change : m.Uses a n) :
      Changes m a n

namespace Hosted

theorem uses_perform (h : Hosted) {a : HostAction} (other : a.isLoading = false) :
    h.machine.Uses a (h.perform a).2.machine := by
  cases a with
  | load | loadBytes | unload => cases other
  | call c =>
    rcases Option.eq_none_or_eq_some h.machine.inst with missing | ⟨i, loaded⟩
    · simp only [perform, MachineCall.perform_of_unloaded missing]
      exact .failed missing
    · simp only [perform, MachineCall.perform_of_loaded loaded]
      exact .ran _ loaded (c.continues_execution i _ _)
  | verify =>
    simp only [perform]
    split
    · exact .nothing
    · rename_i i loaded
      split
      · exact .nothing
      · rename_i j passed
        obtain rfl := Instance.eq_of_verify passed
        exact .inst loaded ⟨rfl, rfl, rfl, rfl⟩
  | addRegion r =>
    simp only [perform]
    split
    · exact .nothing
    · rename_i i loaded
      split
      · exact .nothing
      · rename_i j added
        obtain ⟨_, _, _, live, -, rfl⟩ := Instance.addRegion_eq_ok added
        exact .inst loaded ⟨rfl, rfl, (Instance.isSetUp_of_live live).symm, rfl⟩
  | localUpdate key value =>
    simp only [perform]
    split
    · exact .nothing
    · rename_i m updated
      obtain ⟨s, rfl⟩ := Machine.localUpdate_eq_ok updated
      exact .locals s
  | localFetch key =>
    simp only [perform]
    split
    · exact .nothing
    · rename_i value m fetched
      obtain ⟨s, rfl⟩ := Machine.localFetch_eq_ok fetched
      exact .locals s
  | register code name handler =>
    simp only [perform]
    split
    · exact .nothing
    · rename_i r added
      exact .registered added
  | localRange | localSize | setShared => exact .nothing
  | setClock clock => exact .around clock h.machine.console.failure
  | setFailure e => exact .around h.machine.clock e

theorem changes_perform (h : Hosted) (a : HostAction) :
    h.machine.Changes a (h.perform a).2.machine := by
  by_cases loading : a.isLoading = true
  · cases a with
    | load image stackSize => exact .loaded image stackSize
    | loadBytes bytes stackSize =>
      simp only [perform, Machine.loadBytes]
      split
      · rename_i broken
        exact .refused broken stackSize
      · rename_i parsed
        exact .loadedBytes parsed stackSize
    | unload => exact .unloaded
    | _ => cases loading
  · have other : a.isLoading = false := by simpa using loading
    exact .used other (h.uses_perform other)

def after (h : Hosted) (actions : List HostAction) : Hosted :=
  actions.foldl (fun h a => (h.perform a).2) h

theorem after_induction {P : Hosted → Prop} {h : Hosted} {actions : List HostAction} (initial : P h)
    (kept : ∀ h, ∀ a ∈ actions, P h → P (h.perform a).2) : P (h.after actions) := by
  induction actions generalizing h with
  | nil => exact initial
  | cons a rest ih =>
    refine ih (kept h a List.mem_cons_self initial) fun h b member => ?_
    exact kept h b (List.mem_cons_of_mem a member)

def observe (h : Hosted) (a : HostAction) : Observation :=
  let (answer, next) := h.perform a
  { answer := answer
    inst := next.machine.inst
    lastError := next.machine.lastError
    globals := (next.machine.surroundings next.shared).globals
    output := (Bytes.toList next.machine.console.written).drop
      (Bytes.toList h.machine.console.written).length }

def observations : Hosted → List HostAction → List Observation
  | _, [] => []
  | h, a :: rest => h.observe a :: (h.perform a).2.observations rest

end Hosted

end BytecodeVm
