import BytecodeVm.Instance

/-! What the operations on an instance do, one description for each. A run is refused before it
starts or is a run of the processor, and a call is a run between two changes of the argument
region. -/
namespace BytecodeVm

def Outcome.result : Outcome → Except RunError Int64
  | .halted r0 => .ok r0.toInt64
  | .failed pc e => .error (.stopped pc e)

theorem Outcome.failed_of_result {outcome : Outcome} {e : RunError}
    (h : outcome.result = .error e) : ∃ pc e', outcome = .failed pc e' ∧ e = .stopped pc e' := by
  cases outcome with
  | halted r0 => cases h
  | failed pc e' =>
    cases h
    exact ⟨pc, e', rfl, rfl⟩

def Outcome.state : Outcome → RunState
  | .halted _ => .halted
  | .failed _ _ => .faulted

namespace Instance

variable {i j : Instance} {lookup : Lookup} {host : Surroundings} {r1 : UInt64}

theorem isSetUp_of_idle {stack : Bytes} (idle : i.body = .idle stack) : i.isSetUp = false := by
  rw [isSetUp, idle]

theorem isSetUp_of_live {memory : RegionTable} {locals : Store}
    (live : i.body = .live memory locals) : i.isSetUp = true := by
  rw [isSetUp, live]

theorem isSetUp_iff_live : i.isSetUp = true ↔ ∃ memory locals, i.body = .live memory locals := by
  cases body : i.body <;> simp [isSetUp, body]

theorem locals_of_live {memory : RegionTable} {locals : Store}
    (live : i.body = .live memory locals) : i.locals = some locals := by
  rw [Instance.locals, live]

theorem locals_of_not_isSetUp (down : i.isSetUp = false) : i.locals = none := by
  cases body : i.body with
  | idle => rw [Instance.locals, body]
  | live => cases down.symm.trans (isSetUp_of_live body)

theorem setup_eq_ok (h : i.setup = .ok j) :
    ∃ image locals, i.image = some image ∧
      j = { i with
        body := .live (.fresh i.stack (initialData image) image.rodata) locals
        state := .init } := by
  unfold setup at h
  split at h
  · cases h
  · rename_i image loaded
    dsimp only at h
    split at h <;> cases h
    exact ⟨image, _, loaded, rfl⟩

theorem addRegion_eq_ok {r : Region} (h : i.addRegion r = .ok j) :
    ∃ memory locals memory', i.body = .live memory locals ∧ memory.add r = .ok memory' ∧
      j = { i with body := .live memory' locals } := by
  unfold addRegion at h
  split at h
  · cases h
  · rename_i memory locals live
    cases added : memory.add r with
    | error e => simp [added, Except.map] at h
    | ok memory' =>
      simp only [added, Except.map, Except.ok.injEq] at h
      exact ⟨memory, locals, memory', live, added, h.symm⟩

def Accepted (i : Instance) (lookup : Lookup) : Prop :=
  ∃ image, i.image = some image ∧
    Verifier.verify (fun code => (lookup code).isSome) i.config.noReturn image.text = .ok ()

theorem verify_eq_ok_iff :
    i.verify lookup = .ok j ↔
      (i.verified = true ∨ i.Accepted lookup) ∧ j = { i with verified := true } := by
  constructor
  · intro h
    refine ⟨?_, eq_of_verify h⟩
    unfold verify at h
    split at h
    · rename_i verified
      exact .inl verified
    · split at h
      · cases h
      · rename_i image loaded
        split at h
        · cases h
        · rename_i accepted
          exact .inr ⟨image, loaded, accepted⟩
  · rintro ⟨verified | ⟨image, loaded, accepted⟩, rfl⟩
    · simp only [verify, verified, if_true]
      rw [← verified]
    · cases verified : i.verified with
      | true =>
        simp only [verify, verified, if_true]
        rw [← verified]
      | false => simp [verify, verified, loaded, accepted]

theorem verify_update {f : Instance → Instance} (image : (f i).image = i.image)
    (config : (f i).config = i.config) (verified : (f i).verified = i.verified)
    (passed : { f i with verified := true } = f { i with verified := true }) :
    (f i).verify lookup = (i.verify lookup).map f := by
  dsimp only at passed
  unfold verify
  rw [passed, image, config, verified]
  split
  · rfl
  · split
    · rfl
    · split <;> rfl

theorem verify_state (i : Instance) (state : RunState) (lookup : Lookup) :
    { i with state }.verify lookup = (i.verify lookup).map ({ · with state }) :=
  verify_update (f := ({ · with state })) rfl rfl rfl rfl

theorem verify_body (i : Instance) (body : Body) (lookup : Lookup) :
    { i with body }.verify lookup = (i.verify lookup).map ({ · with body }) :=
  verify_update (f := ({ · with body })) rfl rfl rfl rfl

theorem exists_body_withWorld (i : Instance) (w : World) :
    ∃ body, i.withWorld w = { i with body := body } := by
  unfold withWorld
  split
  · exact ⟨i.body, rfl⟩
  · exact ⟨_, rfl⟩

theorem exists_body_mapArgument (i : Instance) (bytes : Bytes) :
    ∃ body, i.mapArgument bytes = { i with body := body } := by
  unfold mapArgument
  split
  · exact ⟨i.body, rfl⟩
  · exact ⟨_, rfl⟩

theorem exists_body_openArgument (i : Instance) :
    ∃ body, i.openArgument = { i with body := body } := by
  unfold openArgument
  split
  · exact ⟨i.body, rfl⟩
  · exact ⟨_, rfl⟩

theorem Accepted.mapArgument (h : i.Accepted lookup) (bytes : Bytes) :
    (i.mapArgument bytes).Accepted lookup := by
  obtain ⟨body, same⟩ := exists_body_mapArgument i bytes
  rw [same]
  exact h

theorem Accepted.openArgument (h : i.Accepted lookup) : i.openArgument.Accepted lookup := by
  obtain ⟨body, same⟩ := exists_body_openArgument i
  rw [same]
  exact h

theorem settle_eq (i : Instance) (outcome : Outcome) (s : Cpu) :
    i.settle outcome s =
      (outcome.result, { i.withWorld s.world with budget := s.budget, state := outcome.state },
        s.world.host) := by
  cases body : i.body <;> cases outcome <;>
    simp only [settle, withWorld, body, Outcome.result, Outcome.state]

theorem run_of_rejected {e : RunError} (rejected : i.verify lookup = .error e) :
    i.run lookup host r1 = (.error e, { i with state := .faulted }, host) := by
  simp only [run, verify_state, rejected, Except.map]

theorem run_of_missing (missing : i.image = none) :
    i.run lookup host r1 = (.error .notSetUp, { i with state := .faulted }, host) := by
  by_cases verified : i.verified = true
  · have passed : i.verify lookup = .ok { i with verified := true } :=
      verify_eq_ok_iff.mpr ⟨.inl verified, rfl⟩
    rw [run, verify_state, passed]
    simp only [Except.map]
    split
    · rw [← verified]
    · rename_i loaded
      cases missing.symm.trans loaded
  · have rejected : i.verify lookup = .error .notSetUp := by simp [verify, verified, missing]
    exact run_of_rejected rejected

theorem run_of_passed {image : Container} (loaded : i.image = some image)
    (passed : i.verified = true ∨ i.Accepted lookup) :
    i.run lookup host r1 = { i with state := .running, verified := true }.settle
      ((i.boot host r1).run (.ofText image.text lookup)).1
      ((i.boot host r1).run (.ofText image.text lookup)).2 := by
  have verified : i.verify lookup = .ok { i with verified := true } :=
    verify_eq_ok_iff.mpr ⟨passed, rfl⟩
  rw [run, verify_state, verified]
  simp only [Except.map, loaded]
  rfl

theorem run_cases (i : Instance) (lookup : Lookup) (host : Surroundings) (r1 : UInt64) :
    (∃ e, i.run lookup host r1 = (.error e, { i with state := .faulted }, host)) ∨
      ∃ image outcome s, i.image = some image ∧ (i.verified = true ∨ i.Accepted lookup) ∧
        (i.boot host r1).run (.ofText image.text lookup) = (outcome, s) ∧
        i.run lookup host r1 =
          { i with state := .running, verified := true }.settle outcome s := by
  cases verified : i.verify lookup with
  | error e => exact .inl ⟨e, run_of_rejected verified⟩
  | ok j =>
    have passed := (verify_eq_ok_iff.mp verified).1
    rcases Option.eq_none_or_eq_some i.image with missing | ⟨image, loaded⟩
    · exact .inl ⟨_, run_of_missing missing⟩
    · exact .inr ⟨image, _, _, loaded, passed, rfl, run_of_passed loaded passed⟩

theorem state_run (i : Instance) (lookup : Lookup) (host : Surroundings) (r1 : UInt64) :
    (i.run lookup host r1).2.1.state =
      if (i.run lookup host r1).1.isOk then .halted else .faulted := by
  rcases run_cases i lookup host r1 with ⟨e, refused⟩ | ⟨image, outcome, s, -, -, -, ran⟩
  · rw [refused]
    rfl
  · rw [ran, settle_eq]
    cases outcome <;> rfl

theorem execute_of_idle (down : i.isSetUp = false) :
    i.execute lookup host r1 = ⟨.error .notSetUp, i, host, Bytes.zeros 0⟩ := by
  rw [execute, down]
  rfl

theorem executeContext_of_idle {argument : Bytes} (down : i.isSetUp = false) :
    i.executeContext lookup host argument = ⟨.error .notSetUp, i, host, argument⟩ := by
  rw [executeContext, down]
  rfl

theorem execute_of_setUp (up : i.isSetUp = true) :
    i.execute lookup host r1 =
      let ended := (i.mapArgument (Bytes.zeros 0)).run lookup host r1
      ⟨ended.1, ended.2.1, ended.2.2, Bytes.zeros 0⟩ := by
  rw [execute, up]
  rfl

theorem executeContext_of_setUp {argument : Bytes} (up : i.isSetUp = true) :
    i.executeContext lookup host argument =
      let ended := (i.mapArgument argument).openArgument.run lookup host RegionTable.argumentBase
      ⟨ended.1, ended.2.1.mapArgument (Bytes.zeros 0), ended.2.2,
        ended.2.1.memory.argument.bytes⟩ := by
  rw [executeContext, up]
  rfl

end Instance

end BytecodeVm
