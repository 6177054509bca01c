import BytecodeVm.Proofs.Lifecycle
import BytecodeVm.Proofs.Provisioning

/-! The container that a machine has loaded. The loads and unloads of a history decide which one it
is, and nothing else that is done with the machine: a load whose data do not fit takes the container
away, bytes that are no container leave it. The image, the instance and the local store that the
host reaches through the machine are always those of this container. -/
namespace BytecodeVm

def Container.fits (config : InstanceConfig) (c : Container) : Bool :=
  decide (c.header.mutableLen ≤ config.normalized.maxDataSize)

namespace HostAction

def loads (config : InstanceConfig) (before : Option Container) : HostAction → Option Container
  | .load image _ => image.filter (Container.fits config)
  | .loadBytes bytes _ => match Container.parse bytes with
    | .error _ => before
    | .ok c => (some c).filter (Container.fits config)
  | .unload => none
  | _ => before

theorem loads_of_other {a : HostAction} (other : a.isLoading = false) (config : InstanceConfig)
    (before : Option Container) : a.loads config before = before := by
  cases a with
  | load | loadBytes | unload => cases other
  | _ => rfl

end HostAction

namespace Machine

section

variable {config : InstanceConfig} {loaded : Option Container} {m n : Machine}

/-! ## Loads -/

theorem inst_unload (m : Machine) : m.unload.inst = none := by
  unfold unload
  split
  · assumption
  · rfl

theorem image_unload (m : Machine) : m.unload.image = none := by
  unfold unload
  split <;> rfl

theorem lastError_unload (m : Machine) : m.unload.lastError = none := by
  unfold unload
  split <;> rfl

theorem maxDataSize_unload (m : Machine) :
    m.unload.config.maxDataSize = m.config.maxDataSize := by
  unfold unload
  split <;> rfl

/-- A load puts an instance of the container in place where the data fit; where they do not, or
where there is no container, it only unloads. -/
theorem load_cases (room : m.config.maxDataSize = config.maxDataSize) (image : Option Container)
    (stackSize : Int) :
    (∃ i, m.load image stackSize =
        (none, { m.unload with image := image, inst := some i, spare := Bytes.zeros 0 }) ∧
      i.isSetUp = true ∧ i.image = image ∧ image.filter (Container.fits config) = image ∧
      image.isSome = true) ∨
    ∃ e stack, m.load image stackSize = (some (.setup e), { m.unload with spare := stack }) ∧
      image.filter (Container.fits config) = none := by
  unfold load
  dsimp only
  -- the new instance counts only through its container and its room for data
  generalize created : Instance.create image _ _ = i
  have limit : i.config.maxDataSize = config.normalized.maxDataSize := by
    rw [← created]
    simp only [Instance.create, InstanceConfig.normalized, maxDataSize_unload, room]
  have same : i.image = image := by
    rw [← created]
    rfl
  rcases image with _ | c
  · have failed : i.setup = .error .noImage := by rw [Instance.setup, same]
    rw [failed]
    exact .inr ⟨_, _, rfl, rfl⟩
  · by_cases fits : c.header.mutableLen ≤ i.config.maxDataSize
    · rw [Instance.setup_of_fits same fits]
      rw [limit] at fits
      exact .inl ⟨_, rfl, rfl, same, by simp [Container.fits, fits], rfl⟩
    · rw [Instance.setup_of_exceeds same (UInt64.not_le.mp fits)]
      rw [limit] at fits
      exact .inr ⟨_, _, rfl, by simp [Container.fits, UInt64.not_le.mp fits]⟩

/-! ## What a history loads -/

/-- The machine has just this container loaded, and its instance is set up on it. -/
structure Holds (config : InstanceConfig) (loaded : Option Container) (m : Machine) : Prop where
  image : m.image = loaded
  isLoaded : m.isLoaded = loaded.isSome
  inst : ∀ i, m.inst = some i → i.isSetUp = true ∧ i.image = loaded
  room : m.config.maxDataSize = config.maxDataSize

theorem holds_create (config : InstanceConfig) (registry : Registry) (globals : Option Store) :
    Holds config none (create config registry globals) :=
  ⟨rfl, rfl, fun _ found => (by cases found), rfl⟩

theorem Holds.unload (h : Holds config loaded m) : Holds config none m.unload where
  image := m.image_unload
  isLoaded := by rw [Machine.isLoaded, m.inst_unload]; rfl
  inst i found := by rw [m.inst_unload] at found; cases found
  room := m.maxDataSize_unload.trans h.room

theorem Holds.load (h : Holds config loaded m) (image : Option Container) (stackSize : Int) :
    Holds config (image.filter (Container.fits config)) (m.load image stackSize).2 := by
  have down := h.unload
  rcases load_cases h.room image stackSize with
    ⟨i, done, up, same, fits, present⟩ | ⟨e, stack, failed, misfit⟩
  · rw [done, fits]
    refine ⟨rfl, present.symm, fun j found => ?_, down.room⟩
    cases found
    exact ⟨up, same⟩
  · rw [failed, misfit]
    exact ⟨down.image, down.isLoaded, down.inst, down.room⟩

theorem Holds.retains (h : Holds config loaded m) (same : m.Retains n) :
    Holds config loaded n := by
  have room : n.config.maxDataSize = config.maxDataSize := by rw [same.config, h.room]
  rcases Option.eq_none_or_eq_some m.inst with missing | ⟨i, found⟩
  · have none_there := same.missing missing
    refine ⟨same.image.trans h.image, ?_, fun j there => ?_, room⟩
    · rw [← h.isLoaded, Machine.isLoaded, Machine.isLoaded, missing, none_there]
    · cases none_there.symm.trans there
  · obtain ⟨j, next, continues⟩ := same.inst i found
    obtain ⟨up, image⟩ := h.inst i found
    refine ⟨same.image.trans h.image, ?_, fun k there => ?_, room⟩
    · rw [← h.isLoaded, Machine.isLoaded, Machine.isLoaded, found, next]
      rfl
    · cases next.symm.trans there
      exact ⟨continues.isSetUp.trans up, continues.image.trans image⟩

end

/-! ## The local store of the machine -/

theorem setLocals_of_live {m : Machine} {i : Instance} {memory : RegionTable} {old : Store}
    (found : m.inst = some i) (live : i.body = .live memory old) (s : Store) :
    m.setLocals s = { m with inst := some { i with body := .live memory s } } := by
  simp only [setLocals, found, Option.map_some, live]

/-- The local operations of the machine are those of the store `s` of its instance `i`: they answer
what the store answers, and the store that they leave takes the place of `s`. -/
structure Serves (m : Machine) (i : Instance) (memory : RegionTable) (s : Store) : Prop where
  body : i.body = .live memory s
  update (key value : UInt32) : m.localUpdate key value =
    match s.update key value with
    | .error e => .error (.store e)
    | .ok s => .ok { m with inst := some { i with body := .live memory s } }
  fetch (key : UInt32) : m.localFetch key =
    match s.fetch key with
    | .error e => .error (.store e)
    | .ok (value, s) => .ok (value, { m with inst := some { i with body := .live memory s } })
  range (count : Option Nat) : m.localRange count = (s.range count).mapError .store
  size : m.localSize = s.size

theorem serves_of_live {m : Machine} {i : Instance} {memory : RegionTable} {s : Store}
    (found : m.inst = some i) (live : i.body = .live memory s) : m.Serves i memory s := by
  have mine : m.locals = .ok s := by
    simp only [locals, found, Option.bind_some, Instance.locals, live]
  refine ⟨live, fun key value => ?_, fun key => ?_, fun count => ?_, ?_⟩
  · cases updated : s.update key value <;>
      simp only [localUpdate, mine, updated, setLocals_of_live found live]
  · cases fetched : s.fetch key <;>
      simp only [localFetch, mine, fetched, setLocals_of_live found live]
  · cases listed : s.range count <;> simp only [localRange, mine, listed, Except.mapError]
  · simp only [localSize, mine]

structure Idle (m : Machine) : Prop where
  call (shared : Store) (c : MachineCall) : (c.perform m shared).result = -100 ∧
    (c.perform m shared).machine.lastCode = -100
  update (key value : UInt32) : m.localUpdate key value = .error .notLoaded
  fetch (key : UInt32) : m.localFetch key = .error .notLoaded
  range (count : Option Nat) : m.localRange count = .error .notLoaded
  size : m.localSize = 0

theorem idle_of_unloaded {m : Machine} (missing : m.inst = none) : m.Idle := by
  have none_there : m.locals = .error .notLoaded := by
    simp only [locals, missing, Option.bind_none]
  refine ⟨fun shared c => ?_, fun key value => ?_, fun key => ?_, fun count => ?_, ?_⟩
  · rw [MachineCall.perform_of_unloaded missing]
    exact ⟨rfl, rfl⟩
  · simp only [localUpdate, none_there]
  · simp only [localFetch, none_there]
  · simp only [localRange, none_there]
  · simp only [localSize, none_there]

end Machine

namespace Hosted

theorem holds_perform {config : InstanceConfig} {loaded : Option Container} {h : Hosted}
    (held : h.machine.Holds config loaded) (a : HostAction) :
    (h.perform a).2.machine.Holds config (a.loads config loaded) := by
  have change := h.changes_perform a
  generalize (h.perform a).2.machine = m at change ⊢
  cases change with
  | loaded image stackSize => exact held.load image stackSize
  | refused broken => simpa only [HostAction.loads, broken] using held
  | @loadedBytes bytes c parsed stackSize =>
    simpa only [HostAction.loads, parsed] using held.load (some c) stackSize
  | unloaded => exact held.unload
  | used other change =>
    rw [HostAction.loads_of_other other]
    exact held.retains change.retains

theorem holds_after {config : InstanceConfig} {loaded : Option Container} {h : Hosted}
    (held : h.machine.Holds config loaded) (history : List HostAction) :
    (h.after history).machine.Holds config (history.foldl (HostAction.loads config) loaded) := by
  induction history generalizing h loaded with
  | nil => exact held
  | cons a rest ih => exact ih (holds_perform held a)

theorem unloaded_of_setup_error {config : InstanceConfig} {loaded : Option Container} {h : Hosted}
    (held : h.machine.Holds config loaded) {a : HostAction} {e : SetupError}
    (failed : (h.perform a).1 = .loaded (some (.setup e))) :
    ∃ stack, (h.perform a).2.machine = { h.machine.unload with spare := stack } := by
  have load (image : Option Container) (stackSize : Int)
      (failed : (h.machine.load image stackSize).1 = some (.setup e)) :
      ∃ stack, (h.machine.load image stackSize).2 = { h.machine.unload with spare := stack } := by
    rcases Machine.load_cases held.room image stackSize with ⟨i, done, -⟩ | ⟨e, stack, left, -⟩
    · rw [done] at failed
      cases failed
    · exact ⟨stack, by rw [left]⟩
  cases a with
  | load image stackSize =>
    simp only [perform, HostAnswer.loaded.injEq] at failed
    exact load image stackSize failed
  | loadBytes bytes stackSize =>
    simp only [perform, HostAnswer.loaded.injEq, Machine.loadBytes] at failed ⊢
    split at failed
    · cases failed
    · exact load _ stackSize failed
  | verify | addRegion | localUpdate | localFetch | register =>
    simp only [perform] at failed
    split at failed <;> (try split at failed) <;> cases failed
  | _ => cases failed

/-- Whatever was done with a machine, what is loaded is the container that the loads of the history
leave: image and instance are there with it and not otherwise, and the instance is set up on it.
Bytes that are no container change nothing at all, a set-up that fails leaves a machine without
container and error. Without container every call answers -100 and there is no local store; with one
the local operations are those of the store that its program works on. -/
theorem state_consistent (config : InstanceConfig) (registry : Registry) (globals : Option Store)
    (shared : Store) (history : List HostAction) :
    let h := (Hosted.mk (.create config registry globals) shared).after history
    let loaded := history.foldl (HostAction.loads config) none
    (h.machine.image = loaded ∧ h.machine.isLoaded = loaded.isSome ∧
      h.machine.inst.isSome = loaded.isSome ∧
      ∀ i, h.machine.inst = some i → i.isSetUp = true ∧ i.image = loaded) ∧
    (∀ bytes stackSize e, Container.parse bytes = .error e →
      h.perform (.loadBytes bytes stackSize) = (.loaded (some (.container e)), h)) ∧
    (∀ a e, (h.perform a).1 = .loaded (some (.setup e)) →
      (h.perform a).2.machine.isLoaded = false ∧ (h.perform a).2.machine.image = none ∧
        (h.perform a).2.machine.lastError = none ∧ (h.perform a).2.machine.lastCode = 0) ∧
    (loaded = none → h.machine.Idle) ∧
    (loaded.isSome = true → ∃ i memory s, h.machine.inst = some i ∧ h.machine.Serves i memory s ∧
      ∀ host, (i.world host).locals = some s) := by
  intro h loaded
  have held : h.machine.Holds config loaded :=
    holds_after (Machine.holds_create config registry globals) history
  refine ⟨⟨held.image, held.isLoaded, held.isLoaded, held.inst⟩, fun bytes stackSize e broken => ?_,
    fun a e failed => ?_, fun missing => ?_, fun present => ?_⟩
  · simp only [perform, Machine.loadBytes, broken]
  · obtain ⟨stack, left⟩ := unloaded_of_setup_error held failed
    rw [left, Machine.isLoaded, Machine.lastCode]
    simp only [Machine.inst_unload, Machine.image_unload, Machine.lastError_unload]
    exact ⟨rfl, trivial, trivial, trivial⟩
  · apply Machine.idle_of_unloaded
    rw [← Option.not_isSome_iff_eq_none]
    simpa [Machine.isLoaded, missing] using held.isLoaded
  · obtain ⟨i, found⟩ := Option.isSome_iff_exists.mp (held.isLoaded.trans present)
    obtain ⟨memory, s, live⟩ := Instance.isSetUp_iff_live.mp (held.inst i found).1
    refine ⟨i, memory, s, found, Machine.serves_of_live found live, fun host => ?_⟩
    simp only [Instance.world, Instance.locals, live]

end Hosted

def leavesValue : List HostAction :=
  [.call (.value 7), .load (some exitOnly) 16, .localUpdate 3 4]

theorem state_consistent_leavesValue :
    let config := { InstanceConfig.standard with maxDataSize := 4 }
    let start : Hosted := ⟨.create config (.standard true) none, .inMemory 16⟩
    let full := start.after leavesValue
    let failed := full.perform (.load (some fiveBytes) 16)
    full.machine.image = some exitOnly ∧ full.machine.localSize = 1 ∧
      full.perform (.loadBytes (Bytes.zeros 3) 16) =
        (.loaded (some (.container (.shortHeader 3))), full) ∧
      failed.1 = .loaded (some (.setup (.dataTooLarge 8 4))) ∧
      failed.2.machine.isLoaded = false ∧ failed.2.machine.lastCode = 0 ∧
      failed.2.machine.Idle := by
  intro config start full failed
  have before := Hosted.state_consistent config (.standard true) none (.inMemory 16) leavesValue
  have later := Hosted.state_consistent config (.standard true) none (.inMemory 16)
    (leavesValue ++ [.load (some fiveBytes) 16])
  have tooLarge : failed.1 = .loaded (some (.setup (.dataTooLarge 8 4))) := rfl
  obtain ⟨down, -, -, clear⟩ := before.2.2.1 _ _ tooLarge
  exact ⟨before.1.1, rfl, before.2.1 _ 16 _ rfl, tooLarge, down, clear, later.2.2.2.1 rfl⟩

end BytecodeVm
