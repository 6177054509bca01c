import BytecodeVm.Proofs.ControlFlow
import BytecodeVm.Proofs.Sessions

/-! The remembered verification. An instance verifies its text once and remembers that the text
passed. In every session this stays true of the registry as it is: the text and the way it is
judged do not change, taking the instance down forgets, and a registry only grows. -/
namespace BytecodeVm

namespace Verifier

variable {known known' : UInt32 → Bool}

theorem survey_mono (grows : ∀ c, known c = true → known' c = true) (code : List Instruction)
    (pc : Nat) {s : Survey} (h : survey known pc (code.drop pc) = .ok s) :
    survey known' pc (code.drop pc) = .ok s := by
  revert s
  refine survey_induction known code
    (motive := fun pc r => ∀ {s}, r = .ok s → survey known' pc (code.drop pc) = .ok s) ?_ ?_ ?_ pc
  · intro pc past s done
    rw [List.drop_eq_nil_of_le past, ← done, survey]
  · intro pc i e _ _ s impossible
    cases impossible
  · intro pc i r met proper ih s done
    have proper' : Proper known' code.length pc i :=
      ⟨proper.registers, proper.complete, fun kind => grows _ (proper.call kind)⟩
    rcases survey_drop_cases known' met with ⟨e, _, flaw⟩ | ⟨_, goes⟩
    · exact absurd proper' flaw.not_proper
    · cases r with
      | error e => cases done
      | ok later =>
        rw [goes, ih rfl]
        exact done

theorem verify_mono (grows : ∀ c, known c = true → known' c = true) {openEnd : Bool} {text : Bytes}
    (h : verify known openEnd text = .ok ()) : verify known' openEnd text = .ok () := by
  unfold verify at h ⊢
  dsimp only at h ⊢
  split
  · rename_i bad
    rw [if_pos bad] at h
    cases h
  · rename_i good
    rw [if_neg good] at h
    cases surveyed : survey known 0 (Text.instructions text) with
    | error e =>
      rw [surveyed] at h
      cases h
    | ok s =>
      have again : survey known' 0 (Text.instructions text) = .ok s :=
        survey_mono grows (Text.instructions text) 0 surveyed
      rw [surveyed] at h
      rw [again]
      exact h

end Verifier

namespace Instance

variable {i j : Instance} {lookup : Lookup}

def unverified (i : Instance) : Instance := { i with verified := false }

/-- A remembered verification would succeed again. -/
def Current (i : Instance) (lookup : Lookup) : Prop := i.verified = true → i.Accepted lookup

theorem Current.verify (h : i.Current lookup) (verified : i.verified = true) :
    i.unverified.verify lookup = .ok i := by
  refine verify_eq_ok_iff.mpr ⟨.inr (h verified), ?_⟩
  rw [← verified]
  rfl

theorem Current.mapArgument (h : i.Current lookup) (bytes : Bytes) :
    (i.mapArgument bytes).Current lookup := by
  obtain ⟨body, same⟩ := exists_body_mapArgument i bytes
  rw [same]
  exact h

theorem Current.openArgument (h : i.Current lookup) : i.openArgument.Current lookup := by
  obtain ⟨body, same⟩ := exists_body_openArgument i
  rw [same]
  exact h

theorem Accepted.extends {r r' : Registry} (h : i.Accepted r.lookup) (grows : r.Extends r') :
    i.Accepted r'.lookup := by
  obtain ⟨image, loaded, accepted⟩ := h
  refine ⟨image, loaded, Verifier.verify_mono (fun code known => ?_) accepted⟩
  obtain ⟨handler, found⟩ := Option.isSome_iff_exists.mp known
  rw [grows.lookup code handler found]
  rfl

/-- An operation that keeps what is verified, and how, and remembers a verification only if one was
remembered before or the text passes. -/
structure Remembers (lookup : Lookup) (i j : Instance) : Prop where
  image : j.image = i.image
  noReturn : j.config.noReturn = i.config.noReturn
  verified : j.verified = true → i.verified = true ∨ i.Accepted lookup

theorem Remembers.refl (lookup : Lookup) (i : Instance) : Remembers lookup i i :=
  ⟨rfl, rfl, .inl⟩

theorem Remembers.current (h : Remembers lookup i j) (current : i.Current lookup) :
    j.Current lookup := by
  intro verified
  obtain ⟨image, loaded, accepted⟩ := (h.verified verified).elim current id
  rw [← h.noReturn] at accepted
  exact ⟨image, h.image.trans loaded, accepted⟩

theorem Remembers.withBody {body : Body} (h : Remembers lookup { i with body := body } j)
    (body' : Body) : Remembers lookup i { j with body := body' } :=
  ⟨h.image, h.noReturn, h.verified⟩

theorem remembers_of_setup (h : i.setup = .ok j) : Remembers lookup i j := by
  obtain ⟨image, locals, -, rfl⟩ := setup_eq_ok h
  exact ⟨rfl, rfl, .inl⟩

theorem remembers_destroy (i : Instance) (lookup : Lookup) : Remembers lookup i i.destroy :=
  ⟨rfl, rfl, nofun⟩

theorem remembers_of_verify (h : i.verify lookup = .ok j) : Remembers lookup i j := by
  obtain ⟨passed, rfl⟩ := verify_eq_ok_iff.mp h
  exact ⟨rfl, rfl, fun _ => passed⟩

theorem remembers_of_addRegion {r : Region} (h : i.addRegion r = .ok j) : Remembers lookup i j := by
  obtain ⟨memory, locals, memory', -, -, rfl⟩ := addRegion_eq_ok h
  exact ⟨rfl, rfl, .inl⟩

theorem remembers_run (i : Instance) (lookup : Lookup) (host : Surroundings) (r1 : UInt64) :
    Remembers lookup i (i.run lookup host r1).2.1 := by
  rcases run_cases i lookup host r1 with ⟨e, refused⟩ | ⟨image, outcome, s, -, passed, -, ran⟩
  · rw [refused]
    exact ⟨rfl, rfl, .inl⟩
  · rw [ran, settle_eq]
    obtain ⟨body, same⟩ :=
      exists_body_withWorld { i with state := .running, verified := true } s.world
    rw [same]
    exact ⟨rfl, rfl, fun _ => passed⟩

theorem remembers_withWorld (i : Instance) (lookup : Lookup) (w : World) :
    Remembers lookup i (i.withWorld w) := by
  obtain ⟨body, same⟩ := exists_body_withWorld i w
  rw [same]
  exact ⟨rfl, rfl, .inl⟩

theorem remembers_execute (i : Instance) (lookup : Lookup) (host : Surroundings) (r1 : UInt64) :
    Remembers lookup i (i.execute lookup host r1).inst := by
  cases up : i.isSetUp with
  | false =>
    rw [execute_of_idle up]
    exact .refl lookup i
  | true =>
    rw [execute_of_setUp up]
    obtain ⟨body, mapped⟩ := exists_body_mapArgument i (Bytes.zeros 0)
    rw [mapped]
    exact (remembers_run _ lookup host r1).withBody _

theorem remembers_executeContext (i : Instance) (lookup : Lookup) (host : Surroundings)
    (argument : Bytes) : Remembers lookup i (i.executeContext lookup host argument).inst := by
  cases up : i.isSetUp with
  | false =>
    rw [executeContext_of_idle up]
    exact .refl lookup i
  | true =>
    rw [executeContext_of_setUp up]
    obtain ⟨body, mapped⟩ := exists_body_mapArgument i argument
    obtain ⟨body', opened⟩ := exists_body_openArgument { i with body := body }
    rw [mapped, opened]
    dsimp only
    generalize ended : Instance.run _ lookup host RegionTable.argumentBase = last
    have kept := remembers_run { i with body := body' } lookup host RegionTable.argumentBase
    rw [ended] at kept
    obtain ⟨body'', unmapped⟩ := exists_body_mapArgument last.2.1 (Bytes.zeros 0)
    rw [unmapped]
    exact kept.withBody body''

theorem unverified_mapArgument (i : Instance) (bytes : Bytes) :
    i.unverified.mapArgument bytes = (i.mapArgument bytes).unverified := by
  cases body : i.body <;> simp only [Instance.mapArgument, unverified, body]

theorem unverified_openArgument (i : Instance) :
    i.unverified.openArgument = i.openArgument.unverified := by
  cases body : i.body <;> simp only [Instance.openArgument, unverified, body]

theorem Current.run_unverified (h : i.Current lookup) (host : Surroundings) (r1 : UInt64) :
    i.unverified.run lookup host r1 = i.run lookup host r1 := by
  cases verified : i.verified with
  | false => rw [unverified, ← verified]
  | true =>
    obtain ⟨image, loaded, accepted⟩ := h verified
    have again : i.unverified.Accepted lookup := ⟨image, loaded, accepted⟩
    rw [run_of_passed loaded (.inl verified),
      run_of_passed (i := i.unverified) loaded (.inr again)]
    rfl

end Instance

def Execution.forgetful (x : Execution) : Execution := { x with inst := x.inst.unverified }

namespace Instance

variable {i : Instance} {lookup : Lookup}

theorem Current.forgetful_execute (h : i.Current lookup) (host : Surroundings) (r1 : UInt64) :
    (i.unverified.execute lookup host r1).forgetful = (i.execute lookup host r1).forgetful := by
  cases up : i.isSetUp with
  | false =>
    rw [execute_of_idle up, execute_of_idle (i := i.unverified) up]
    rfl
  | true =>
    rw [execute_of_setUp up, execute_of_setUp (i := i.unverified) up, unverified_mapArgument,
      (h.mapArgument _).run_unverified]

theorem Current.forgetful_executeContext (h : i.Current lookup) (host : Surroundings)
    (argument : Bytes) :
    (i.unverified.executeContext lookup host argument).forgetful =
      (i.executeContext lookup host argument).forgetful := by
  cases up : i.isSetUp with
  | false =>
    rw [executeContext_of_idle up, executeContext_of_idle (i := i.unverified) up]
    rfl
  | true =>
    rw [executeContext_of_setUp up, executeContext_of_setUp (i := i.unverified) up,
      unverified_mapArgument, unverified_openArgument,
      (h.mapArgument _).openArgument.run_unverified]

end Instance

namespace Session

/-- Every operation keeps a remembered verification current: those on the instance because they
remember nothing that was not checked, a registration because it only adds functions. -/
theorem current_perform {s : Session} (h : s.inst.Current s.registry.lookup) (a : Action) :
    (s.perform a).inst.Current (s.perform a).registry.lookup := by
  cases a with
  | setup =>
    exact getD_toOption_cases (P := (·.Current s.registry.lookup)) h fun j done =>
      (Instance.remembers_of_setup done).current h
  | destroy => exact (Instance.remembers_destroy _ _).current h
  | verify =>
    exact getD_toOption_cases (P := (·.Current s.registry.lookup)) h fun j done =>
      (Instance.remembers_of_verify done).current h
  | addRegion r =>
    exact getD_toOption_cases (P := (·.Current s.registry.lookup)) h fun j done =>
      (Instance.remembers_of_addRegion done).current h
  | execute host r1 => exact (Instance.remembers_execute _ _ host r1).current h
  | executeContext host argument =>
    exact (Instance.remembers_executeContext _ _ host argument).current h
  | register code name handler =>
    intro verified
    exact (h verified).extends (s.extends_after [.register code name handler])
  | touch host change => exact (Instance.remembers_withWorld _ _ _).current h

/-- In every session on a new instance, a remembered verification would succeed again at once, and
so no call depends on it. The registry meanwhile only grows: a refused registration changes
nothing, an accepted one only the code it is made for. -/
theorem preflight_never_stale (image : Option Container) (stack : Option Bytes)
    (config : InstanceConfig) (registry : Registry) (actions : List Action) :
    let s := (Session.mk (.create image stack config) registry).after actions
    let lookup := s.registry.lookup
    (s.inst.verified = true → s.inst.unverified.verify lookup = .ok s.inst) ∧
      (∀ host r1, (s.inst.unverified.execute lookup host r1).forgetful =
        (s.inst.execute lookup host r1).forgetful) ∧
      (∀ host argument, (s.inst.unverified.executeContext lookup host argument).forgetful =
        (s.inst.executeContext lookup host argument).forgetful) ∧
      (∀ later, s.registry.Extends (s.after later).registry) ∧
      (∀ code name handler, handler = none ∨ code ∈ s.registry.codes →
        (∃ e, s.registry.register code name handler = .error e) ∧
          s.perform (.register code name handler) = s) ∧
      ∀ code name handler, code ∉ s.registry.codes →
        ∃ r, s.registry.register code name (some handler) = .ok r ∧
          ∀ c, r.find? c = if c = code then some ⟨code, name, handler⟩ else s.registry.find? c := by
  intro s lookup
  have current : s.inst.Current lookup :=
    after_induction (P := fun s => s.inst.Current s.registry.lookup) nofun
      fun _ a _ h => current_perform h a
  refine ⟨current.verify, current.forgetful_execute, current.forgetful_executeContext,
    s.extends_after, ?_, ?_⟩
  · intro code name handler refusal
    obtain ⟨e, refused⟩ := Registry.register_eq_error_iff.mpr refusal
    refine ⟨⟨e, refused⟩, ?_⟩
    rw [perform, refused]
    rfl
  · intro code name handler free
    cases added : s.registry.register code name (some handler) with
    | error e =>
      rcases Registry.register_eq_error_iff.mp ⟨e, added⟩ with missing | taken
      · cases missing
      · exact absurd taken free
    | ok r => exact ⟨r, rfl, Registry.find?_of_register added⟩

theorem preflight_never_stale_of_registering :
    let probe : Option Handler := some fun w _ => (.value 0, w)
    let start := Session.mk (.create (some jumpOverWide) none .standard) (.standard false)
    let s := start.after [.verify, .register 0x40 "probe" probe, .verify, .setup,
      .register 0x40 "again" probe, .register 0x41 "later" probe]
    (start.perform .verify).inst.verified = false ∧ s.inst.verified = true ∧
      s.inst.unverified.verify s.registry.lookup = .ok s.inst :=
  ⟨rfl, rfl, (preflight_never_stale (some jumpOverWide) none .standard (.standard false) _).1 rfl⟩

end Session

end BytecodeVm
