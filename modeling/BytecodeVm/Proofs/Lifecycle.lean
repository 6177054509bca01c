import BytecodeVm.Proofs.ControlFlow
import BytecodeVm.Proofs.Layout
import BytecodeVm.Proofs.Sessions
import BytecodeVm.Proofs.WriteIsolation

/-! The life cycle of an instance. Between two calls it is at rest: it does not run, no argument is
mapped, and it either keeps nothing but its stack or has its regions at their fixed places. Every
operation keeps it so, whatever way it ends. -/
namespace BytecodeVm

theorem Bytes.eq_zeros_of_size_eq_zero {b : Bytes} (h : b.size = 0) : b = zeros 0 := by
  rw [ByteArray.size_eq_zero_iff.mp h, ByteArray.size_eq_zero_iff.mp (size_zeros 0)]

/-- The class of no rights at all: memories that agree for it have the same layout. -/
def Permission.never (_ : Permission) : Bool := false

theorem Permission.unwritable_of_never (p : Permission) (h : p.never = true) :
    p.unwritable = true := nomatch h

/-- A host function may write into the memory of an instance but leaves the regions where they
are, with their sizes and their rights. -/
def KeepsLayout (handler : Handler) : Prop :=
  ∀ (w : World) (a : Arguments), w.memory.Agrees Permission.never (handler w a).2.memory

def Registry.LeavesRegions (r : Registry) : Prop :=
  ∀ code handler, r.lookup code = some handler → KeepsLayout handler

theorem KeepsUnwritable.keepsLayout {handler : Handler} (h : KeepsUnwritable handler) :
    KeepsLayout handler :=
  fun w a => (h w a).mono Permission.unwritable_of_never

def Body.AtRest (image : Option Container) (stack : Nat) : Body → Prop
  | .idle bytes => bytes.size = stack
  | .live memory _ =>
    memory.argument.bytes.size = 0 ∧ ∃ c, image = some c ∧ memory.LaidOut c stack

namespace Instance

structure AtRest (image : Option Container) (stack : Nat) (i : Instance) : Prop where
  loaded : i.image = image
  state : i.state ≠ .running
  body : i.body.AtRest image stack

section

variable {image : Option Container} {stack : Nat} {i j : Instance} {lookup : Lookup}

theorem atRest_create (image : Option Container) (stack : Option Bytes) (config : InstanceConfig) :
    (create image stack config).AtRest image (create image stack config).stack.size :=
  ⟨rfl, nofun, rfl⟩

theorem AtRest.size_stack (h : i.AtRest image stack) : i.stack.size = stack := by
  have body := h.body
  unfold Instance.stack
  split
  · rename_i bytes idle
    rwa [idle] at body
  · rename_i memory locals live
    rw [live] at body
    obtain ⟨-, c, -, laid⟩ := body
    exact laid.stack.size

theorem AtRest.setup (genuine : ∀ c, image = some c → c.Genuine) (h : i.AtRest image stack)
    (done : i.setup = .ok j) : j.AtRest image stack := by
  obtain ⟨c, locals, present, rfl⟩ := setup_eq_ok done
  have loaded := h.loaded.symm.trans present
  have laid := RegionTable.laidOut_fresh (genuine c loaded) i.stack
  rw [h.size_stack] at laid
  exact ⟨h.loaded, nofun, Bytes.size_zeros 0, c, loaded, laid⟩

theorem AtRest.destroy (h : i.AtRest image stack) : i.destroy.AtRest image stack :=
  ⟨h.loaded, nofun, h.size_stack⟩

theorem AtRest.verify (h : i.AtRest image stack) (done : i.verify lookup = .ok j) :
    j.AtRest image stack := by
  obtain ⟨-, rfl⟩ := verify_eq_ok_iff.mp done
  exact { h with }

theorem AtRest.addRegion {r : Region} (h : i.AtRest image stack) (done : i.addRegion r = .ok j) :
    j.AtRest image stack := by
  obtain ⟨memory, locals, memory', live, added, rfl⟩ := addRegion_eq_ok done
  have body := h.body
  rw [live] at body
  obtain ⟨empty, c, loaded, laid⟩ := body
  obtain ⟨laid', same⟩ := laid.add added
  exact ⟨h.loaded, h.state, by rw [same]; exact empty, c, loaded, laid'⟩

theorem AtRest.withWorld {w : World} (h : i.AtRest image stack)
    (kept : i.memory.Agrees Permission.never w.memory) : (i.withWorld w).AtRest image stack := by
  have rest := h.body
  cases body : i.body with
  | idle bytes =>
    simp only [Instance.withWorld, body]
    exact h
  | live memory locals =>
    rw [memory_of_live body] at kept
    rw [body] at rest
    obtain ⟨empty, c, loaded, laid⟩ := rest
    simp only [Instance.withWorld, body]
    exact ⟨h.loaded, h.state, kept.argument.size.symm.trans empty, c, loaded, kept.laidOut laid⟩

theorem state_run_ne_running (i : Instance) (lookup : Lookup) (host : Surroundings)
    (r1 : UInt64) : (i.run lookup host r1).2.1.state ≠ .running := by
  rw [state_run]
  split <;> nofun

theorem state_mapArgument (i : Instance) (bytes : Bytes) :
    (i.mapArgument bytes).state = i.state := by
  obtain ⟨body, same⟩ := exists_body_mapArgument i bytes
  rw [same]

section

variable (keeps : ∀ code handler, lookup code = some handler → KeepsLayout handler)

include keeps

theorem AtRest.execute (h : i.AtRest image stack) (host : Surroundings) (r1 : UInt64) :
    (i.execute lookup host r1).inst.AtRest image stack := by
  cases body : i.body with
  | idle bytes =>
    rw [execute_of_idle (isSetUp_of_idle body)]
    exact h
  | live memory locals =>
    rw [execute_of_setUp (isSetUp_of_live body)]
    have rest := h.body
    rw [body] at rest
    obtain ⟨-, c, loaded, laid⟩ := rest
    obtain ⟨same, memory', locals', live', kept⟩ :=
      run_of_live Permission.unwritable_of_never keeps (body_mapArgument body (Bytes.zeros 0)) host
        r1
    rw [image_mapArgument] at same
    refine ⟨same.trans h.loaded, state_run_ne_running _ _ _ _, ?_⟩
    rw [live']
    exact ⟨kept.argument.size.symm, c, loaded, kept.laidOut { laid with }⟩

theorem AtRest.executeContext (h : i.AtRest image stack) (host : Surroundings) (argument : Bytes) :
    (i.executeContext lookup host argument).inst.AtRest image stack := by
  cases body : i.body with
  | idle bytes =>
    rw [executeContext_of_idle (isSetUp_of_idle body)]
    exact h
  | live memory locals =>
    rw [executeContext_of_setUp (isSetUp_of_live body)]
    have rest := h.body
    rw [body] at rest
    obtain ⟨-, c, loaded, laid⟩ := rest
    obtain ⟨same, memory', locals', live', kept⟩ :=
      run_of_live Permission.unwritable_of_never keeps
        (body_openArgument (body_mapArgument body argument)) host RegionTable.argumentBase
    rw [image_openArgument, image_mapArgument] at same
    refine ⟨?_, ?_, ?_⟩
    · exact (image_mapArgument _ _).trans (same.trans h.loaded)
    · rw [state_mapArgument]
      exact state_run_ne_running _ _ _ _
    · -- whatever the program did to the argument, it is taken away in the end
      rw [body_mapArgument live']
      exact ⟨Bytes.size_zeros 0, c, loaded, { kept.laidOut { laid with } with }⟩

end

theorem memory_of_idle {bytes : Bytes} (idle : i.body = .idle bytes) : i.memory = .blank := by
  rw [memory, idle]

theorem AtRest.quiet (genuine : ∀ c, image = some c → c.Genuine) (h : i.AtRest image stack) :
    i.memory.Quiet stack := by
  have rest := h.body
  cases body : i.body with
  | idle bytes =>
    rw [memory_of_idle body]
    exact RegionTable.quiet_blank stack
  | live memory locals =>
    rw [body] at rest
    obtain ⟨empty, c, loaded, laid⟩ := rest
    rw [memory_of_live body]
    exact laid.quiet (genuine c loaded) empty

theorem mapArgument_of_empty (empty : i.memory.argument.bytes.size = 0) :
    i.mapArgument (Bytes.zeros 0) = i := by
  cases body : i.body with
  | idle bytes => simp only [Instance.mapArgument, body]
  | live memory locals =>
    rw [memory_of_live body] at empty
    simp only [Instance.mapArgument, body]
    rw [← Bytes.eq_zeros_of_size_eq_zero empty, ← body]

end

structure BetweenCalls (image : Option Container) (stack : Nat) (i : Instance) : Prop where
  notRunning : i.state ≠ .running
  noArgument : i.memory.argument.bytes.size = 0
  /-- Where no region of the host's lies, the window of the argument is unmapped, unless the stack
  reaches into it. -/
  window : ∀ addr size access, RegionTable.InWindow addr size →
    (∀ r ∈ i.memory.extensions, r.holds addr size = false) →
    (i.memory.resolve addr size access = .error (.unmapped addr size) ↔
        i.memory.stack.holds addr size = false) ∧
      (stack ≤ RegionTable.windowSize →
        i.memory.resolve addr size access = .error (.unmapped addr size))
  extensions : i.memory.extensions.length ≤ RegionTable.maxExtensions
  setUp : i.isSetUp = true →
    i.locals.isSome = true ∧ ∃ c, image = some c ∧ i.memory.LaidOut c stack
  notSetUp : i.isSetUp = false →
    i.locals = none ∧
      (∀ addr size access, size ≠ 0 → ∃ e, i.memory.resolve addr size access = .error e) ∧
      (∀ r, i.addRegion r = .error .notSetUp) ∧
      (∀ lookup host r1,
        i.execute lookup host r1 = ⟨.error .notSetUp, i, host, Bytes.zeros 0⟩) ∧
      ∀ lookup host argument,
        i.executeContext lookup host argument = ⟨.error .notSetUp, i, host, argument⟩
  ended : i.isSetUp = true →
    (∀ lookup host r1, (i.execute lookup host r1).inst.state =
        if (i.execute lookup host r1).result.isOk then .halted else .faulted) ∧
      ∀ lookup host argument, (i.executeContext lookup host argument).inst.state =
        if (i.executeContext lookup host argument).result.isOk then .halted else .faulted
  rejected : ∀ lookup e, i.isSetUp = true → i.verify lookup = .error e →
    (∀ host r1, i.execute lookup host r1 =
        ⟨.error e, { i with state := .faulted }, host, Bytes.zeros 0⟩) ∧
      ∀ host argument, i.executeContext lookup host argument =
        ⟨.error e, { i.openArgument with state := .faulted }, host, argument⟩

section

variable {image : Option Container} {stack : Nat} {i : Instance}

theorem nothing_of_idle (down : i.isSetUp = false) :
    i.locals = none ∧
      (∀ addr size access, size ≠ 0 → ∃ e, i.memory.resolve addr size access = .error e) ∧
      ∀ r, i.addRegion r = .error .notSetUp := by
  cases body : i.body with
  | idle bytes =>
    rw [memory_of_idle body]
    refine ⟨locals_of_not_isSetUp down, fun _ _ _ => RegionTable.error_of_resolve_blank,
      fun r => ?_⟩
    rw [Instance.addRegion, body]
  | live memory locals => cases down.symm.trans (isSetUp_of_live body)

theorem state_executeContext (up : i.isSetUp = true) (lookup : Lookup) (host : Surroundings)
    (argument : Bytes) :
    (i.executeContext lookup host argument).inst.state =
      if (i.executeContext lookup host argument).result.isOk then .halted else .faulted := by
  rw [executeContext_of_setUp up]
  dsimp only
  rw [state_mapArgument, state_run]

/-- A rejected text leaves everything as it is, apart from the state and the rights on the argument
that is not mapped any more. -/
theorem executeContext_of_rejected {lookup : Lookup} {e : RunError} (up : i.isSetUp = true)
    (empty : i.memory.argument.bytes.size = 0) (rejected : i.verify lookup = .error e)
    (host : Surroundings) (argument : Bytes) :
    i.executeContext lookup host argument =
      ⟨.error e, { i.openArgument with state := .faulted }, host, argument⟩ := by
  cases body : i.body with
  | idle bytes => cases up.symm.trans (isSetUp_of_idle body)
  | live memory locals =>
    have refused : (i.mapArgument argument).openArgument.verify lookup = .error e := by
      simp only [Instance.mapArgument, Instance.openArgument, body]
      rw [verify_body, rejected]
      rfl
    rw [executeContext_of_setUp up, run_of_rejected refused]
    rw [memory_of_live body] at empty
    simp only [Instance.mapArgument, Instance.openArgument, Instance.memory, body,
      ← Bytes.eq_zeros_of_size_eq_zero empty]

theorem AtRest.betweenCalls (genuine : ∀ c, image = some c → c.Genuine)
    (h : i.AtRest image stack) : i.BetweenCalls image stack := by
  have quiet := h.quiet genuine
  refine ⟨h.state, quiet.argument, ?_, quiet.extensions, ?_, ?_, ?_, ?_⟩
  · intro addr size access inside free
    have unmapped : i.memory.resolve addr size access = .error (.unmapped addr size) ↔
        i.memory.stack.holds addr size = false := quiet.unmapped_iff inside free
    exact ⟨unmapped, fun fits => unmapped.mpr (quiet.not_holds_stack inside fits)⟩
  · intro up
    have rest := h.body
    cases body : i.body with
    | idle bytes => cases up.symm.trans (isSetUp_of_idle body)
    | live memory locals =>
      rw [body] at rest
      rw [memory_of_live body, Instance.locals, body]
      exact ⟨rfl, rest.2⟩
  · intro down
    obtain ⟨noLocals, fails, refuses⟩ := nothing_of_idle down
    exact ⟨noLocals, fails, refuses, fun _ _ _ => execute_of_idle down,
      fun _ _ _ => executeContext_of_idle down⟩
  · intro up
    refine ⟨fun lookup host r1 => ?_, state_executeContext up⟩
    rw [execute_of_setUp up]
    exact state_run _ _ _ _
  · intro lookup e up rejected
    refine ⟨fun host r1 => ?_, executeContext_of_rejected up quiet.argument rejected⟩
    rw [execute_of_setUp up, mapArgument_of_empty quiet.argument, run_of_rejected rejected]

end

end Instance

namespace Session

variable {image : Option Container} {stack : Nat} {s : Session} {a : Action}

theorem atRest_perform (genuine : ∀ c, image = some c → c.Genuine)
    (keeps : s.registry.LeavesRegions)
    (touched : ∀ host change, a = .touch host change →
      ∀ w : World, w.memory.Agrees Permission.never (change w).memory)
    (h : s.inst.AtRest image stack) : (s.perform a).inst.AtRest image stack := by
  cases a with
  | setup =>
    exact getD_toOption_cases (P := Instance.AtRest image stack) h fun _ => h.setup genuine
  | destroy => exact h.destroy
  | verify => exact getD_toOption_cases (P := Instance.AtRest image stack) h fun _ => h.verify
  | addRegion r =>
    exact getD_toOption_cases (P := Instance.AtRest image stack) h fun _ => h.addRegion
  | execute host r1 => exact h.execute keeps host r1
  | executeContext host argument => exact h.executeContext keeps host argument
  | register code name handler => exact h
  | touch host change => exact h.withWorld (touched host change rfl (s.inst.world host))

theorem leavesRegions_perform (keeps : s.registry.LeavesRegions)
    (new : ∀ code name handler, a = .register code name (some handler) → KeepsLayout handler) :
    (s.perform a).registry.LeavesRegions := by
  cases a with
  | register code name handler =>
    refine getD_toOption_cases (P := Registry.LeavesRegions) keeps ?_
    intro r added c f found
    rcases Registry.lookup_of_register added found with rfl | old
    · exact new code name f rfl
    · exact keeps c f old
  | setup | destroy | verify | addRegion | execute | executeContext | touch => exact keeps

/-- However an instance was used since it was created, and however its calls ended, it is as it
should be between two calls, as long as the host leaves the regions in place. -/
theorem life_cycle_invariant (image : Option Container) (stack : Option Bytes)
    (config : InstanceConfig) (registry : Registry) (actions : List Action)
    (parsed : ∀ c, image = some c → ∃ bytes, Container.parse bytes = .ok c)
    (keeps : registry.LeavesRegions)
    (registered : ∀ code name handler, .register code name (some handler) ∈ actions →
      KeepsLayout handler)
    (touched : ∀ host change, .touch host change ∈ actions →
      ∀ w : World, w.memory.Agrees Permission.never (change w).memory) :
    let i := Instance.create image stack config
    ((Session.mk i registry).after actions).inst.BetweenCalls image i.stack.size := by
  intro i
  have genuine : ∀ c, image = some c → c.Genuine := by
    intro c loaded
    obtain ⟨bytes, parse⟩ := parsed c loaded
    exact Container.genuine_of_parse parse
  refine Instance.AtRest.betweenCalls genuine (And.left (after_induction
    (P := fun s => s.inst.AtRest image i.stack.size ∧ s.registry.LeavesRegions)
    ⟨Instance.atRest_create image stack config, keeps⟩ ?_))
  rintro s a member ⟨rest, keeps⟩
  refine ⟨atRest_perform genuine keeps ?_ rest, leavesRegions_perform keeps ?_⟩
  · rintro host change rfl
    exact touched host change member
  · rintro code name handler rfl
    exact registered code name handler member

end Session

theorem Registry.leavesRegions_standard (hashing : Bool) :
    (Registry.standard hashing).LeavesRegions := by
  intro code handler found
  obtain ⟨f, member, rfl⟩ := Registry.mem_of_lookup found
  exact (Registry.keepsUnwritable_standard hashing f member).keepsLayout

theorem life_cycle_invariant_of_windowStores :
    let host : Surroundings := ⟨.inMemory 16, .silent, 0⟩
    let i := Instance.create (some windowStores) none .standard
    let actions := [.setup, .addRegion table, .addRegion window, .execute host 7,
      .touch host fun w => { w with locals := some (.inMemory 3) },
      .executeContext host (Bytes.zeros 12), .destroy,
      .register 0x40 "probe" (some fun w _ => (.panic "probe", w)), .setup]
    Container.parse windowStores.image = .ok windowStores ∧
      (Registry.standard true).LeavesRegions ∧
      ((Session.mk i (.standard true)).after actions).inst.BetweenCalls (some windowStores)
        512 := by
  intro host i actions
  have between := Session.life_cycle_invariant (some windowStores) none .standard (.standard true)
    actions ?_ (Registry.leavesRegions_standard true) ?_ ?_
  · have size : i.stack.size = 512 := Bytes.size_zeros 512
    rw [← size]
    exact ⟨rfl, Registry.leavesRegions_standard true, between⟩
  · rintro c ⟨⟩
    exact ⟨windowStores.image, rfl⟩
  · intro code name handler member
    simp only [actions, List.mem_cons, Action.register.injEq, Option.some.injEq, reduceCtorEq,
      false_or, or_false, List.not_mem_nil] at member
    obtain ⟨-, -, rfl⟩ := member
    exact fun w _ => .refl w.memory
  · intro host change member
    simp only [actions, List.mem_cons, Action.touch.injEq, reduceCtorEq, false_or, or_false,
      List.not_mem_nil] at member
    obtain ⟨-, rfl⟩ := member
    exact fun w => .refl w.memory

def exitOnly : Container := .ofWords [0x0000000000000095]

def longStack : Instance :=
  .create (some exitOnly) none { InstanceConfig.standard with stackSize := 4294967297 }

/-- The window of an argument that is not mapped is not free, though the host has mapped nothing:
the end of a long stack lies in it. -/
theorem longStack_reaches_argument :
    let j := ((Session.mk longStack (.standard true)).after [.setup]).inst
    j.isSetUp = true ∧ j.memory.argument.bytes.size = 0 ∧ j.memory.extensions = [] ∧
      RegionTable.InWindow RegionTable.argumentBase 1 ∧
      ∃ bytes, j.memory.resolve RegionTable.argumentBase 1 .read = .ok bytes := by
  intro j
  have genuine : ∀ c, some exitOnly = some c → c.Genuine := by
    rintro c ⟨⟩
    exact Container.genuine_of_parse (show Container.parse exitOnly.image = .ok exitOnly from rfl)
  have created : longStack.AtRest (some exitOnly) longStack.stack.size :=
    Instance.atRest_create _ _ _
  have rest : j.AtRest (some exitOnly) longStack.stack.size :=
    Session.atRest_perform (s := ⟨longStack, .standard true⟩) (a := .setup) genuine
      (Registry.leavesRegions_standard true) nofun created
  have body := rest.body
  obtain ⟨empty, c, -, laid⟩ := body
  have size : longStack.stack.size = 4294967297 := Bytes.size_zeros 4294967297
  rw [size] at laid
  exact ⟨rfl, empty, rfl, ⟨by decide, UInt64.le_refl _, by decide⟩,
    laid.resolve_argumentBase (by decide) (by decide)⟩

end BytecodeVm
