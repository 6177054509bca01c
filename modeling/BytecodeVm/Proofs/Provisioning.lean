import BytecodeVm.Proofs.Coherence
import BytecodeVm.Proofs.Machines
import BytecodeVm.Proofs.Preflight
import Mathlib

/-! Setting an instance up again. Set-up reads nothing of what an instance has become but its stack
and its local store: the data and the regions come from the image and the limits from the
configuration, and these two are what no operation changes. So after any history it gives the memory
of the first set-up, and whether it succeeds was decided when the instance was created. -/
namespace BytecodeVm

theorem Header.isLeast_mutableLen (h : Header) :
    IsLeast {n | 4 ∣ n ∧ h.dataLen.toNat + h.bssLen.toNat ≤ n} h.mutableLen.toNat := by
  rw [h.toNat_mutableLen]
  refine ⟨⟨Nat.dvd_mul_left 4 _, by omega⟩, ?_⟩
  rintro n ⟨⟨k, rfl⟩, holds⟩
  omega

theorem Instance.toList_initialData (c : Container) :
    Bytes.toList (Instance.initialData c) =
      Bytes.toList c.data ++ List.replicate (c.header.mutableLen.toNat - c.data.size) 0 := by
  have zeros : Bytes.toList (Bytes.zeros c.header.mutableLen.toNat) =
      List.replicate c.header.mutableLen.toNat 0 := by
    simp [Bytes.zeros_eq, Bytes.toList]
  rw [Instance.initialData, Bytes.toList_overwrite, zeros, List.take_zero, List.nil_append,
    Nat.zero_add, List.drop_replicate]

theorem Store.listed_inMemory (capacity : Int) : (inMemory capacity).listed = .ok [] := by
  simp [inMemory, listed, Volatile.empty, Volatile.listed]

namespace Instance

section

variable {i j k : Instance} {lookup : Lookup}

/-- The instance `j` has the image of `i` and, but for a store that was lent, its configuration. -/
structure Descends (i j : Instance) : Prop where
  image : j.image = i.image
  maxDataSize : j.config.maxDataSize = i.config.maxDataSize
  localCapacity : j.config.localCapacity = i.config.localCapacity
  unlent : i.config.locals = none → j.config.locals = none

theorem descends_of_same (image : j.image = i.image) (config : j.config = i.config) :
    i.Descends j where
  image := image
  maxDataSize := by rw [config]
  localCapacity := by rw [config]
  unlent := by rw [config]; exact id

theorem Descends.trans (h : i.Descends j) (h' : j.Descends k) : i.Descends k where
  image := h'.image.trans h.image
  maxDataSize := h'.maxDataSize.trans h.maxDataSize
  localCapacity := h'.localCapacity.trans h.localCapacity
  unlent none := h'.unlent (h.unlent none)

theorem descends_destroy (i : Instance) : i.Descends i.destroy where
  image := rfl
  maxDataSize := rfl
  localCapacity := rfl
  unlent none := by simp [destroy, none]

theorem setup_of_fits {c : Container} (loaded : i.image = some c)
    (fits : c.header.mutableLen ≤ i.config.maxDataSize) :
    i.setup = .ok { i with
      body := .live (.fresh i.stack (initialData c) c.rodata)
        (i.locals.getD (i.config.locals.getD (.inMemory i.config.localCapacity)))
      state := .init } := by
  simp only [setup, loaded, if_neg (UInt64.not_lt.mpr fits)]
  cases i.locals <;> rfl

theorem setup_of_exceeds {c : Container} (loaded : i.image = some c)
    (exceeds : i.config.maxDataSize < c.header.mutableLen) :
    i.setup = .error (.dataTooLarge c.header.mutableLen i.config.maxDataSize) := by
  simp only [setup, loaded, if_pos exceeds]

end

end Instance

namespace Session

variable {s : Session}

theorem descends_perform (s : Session) (a : Action) : s.inst.Descends (s.perform a).inst := by
  have same := Instance.descends_of_same (i := s.inst) rfl rfl
  cases a with
  | setup =>
    refine getD_toOption_cases (P := s.inst.Descends) same fun j done => ?_
    obtain ⟨image, locals, -, rfl⟩ := Instance.setup_eq_ok done
    exact Instance.descends_of_same rfl rfl
  | destroy => exact Instance.descends_destroy s.inst
  | verify =>
    refine getD_toOption_cases (P := s.inst.Descends) same fun j done => ?_
    obtain rfl := Instance.eq_of_verify done
    exact Instance.descends_of_same rfl rfl
  | addRegion r =>
    refine getD_toOption_cases (P := s.inst.Descends) same fun j done => ?_
    obtain ⟨_, _, _, -, -, rfl⟩ := Instance.addRegion_eq_ok done
    exact Instance.descends_of_same rfl rfl
  | execute host r1 =>
    have kept := (MachineCall.value r1).continues_execution s.inst s.registry.lookup host
    exact Instance.descends_of_same kept.image kept.config
  | executeContext host argument =>
    have kept :=
      (MachineCall.context (some argument)).continues_execution s.inst s.registry.lookup host
    exact Instance.descends_of_same kept.image kept.config
  | register code name handler => exact same
  | touch host change =>
    have kept := Instance.continues_withWorld s.inst (change (s.inst.world host))
    exact Instance.descends_of_same kept.image kept.config

theorem descends_after (s : Session) (history : List Action) :
    s.inst.Descends (s.after history).inst :=
  after_induction (P := fun t => s.inst.Descends t.inst) (Instance.descends_of_same rfl rfl)
    fun t a _ so_far => so_far.trans (descends_perform t a)

theorem isSetUp_perform {a : Action} (noSetup : a ≠ .setup) (noDestroy : a ≠ .destroy) :
    (s.perform a).inst.isSetUp = s.inst.isSetUp := by
  cases a with
  | setup => exact absurd rfl noSetup
  | destroy => exact absurd rfl noDestroy
  | verify =>
    refine getD_toOption_cases (P := fun j : Instance => j.isSetUp = s.inst.isSetUp) rfl
      fun j done => ?_
    obtain rfl := Instance.eq_of_verify done
    rfl
  | addRegion r =>
    refine getD_toOption_cases (P := fun j : Instance => j.isSetUp = s.inst.isSetUp) rfl
      fun j done => ?_
    obtain ⟨_, _, _, live, -, rfl⟩ := Instance.addRegion_eq_ok done
    rw [Instance.isSetUp_of_live live]
    rfl
  | execute host r1 => exact ((MachineCall.value r1).continues_execution _ _ host).isSetUp
  | executeContext host argument =>
    exact ((MachineCall.context (some argument)).continues_execution _ _ host).isSetUp
  | register code name handler => rfl
  | touch host change => exact (Instance.continues_withWorld _ _).isSetUp

theorem isSetUp_of_setup (s : Session) (up : s.inst.isSetUp = true) :
    (s.perform .setup).inst.isSetUp = true := by
  refine getD_toOption_cases (P := fun j : Instance => j.isSetUp = true) up fun j done => ?_
  obtain ⟨image, locals, -, rfl⟩ := Instance.setup_eq_ok done
  rfl

theorem isSetUp_after {history : List Action} (up : s.inst.isSetUp = true)
    (kept : .destroy ∉ history) : (s.after history).inst.isSetUp = true := by
  refine after_induction (P := fun t => t.inst.isSetUp = true) up fun t a member up => ?_
  by_cases again : a = .setup
  · rw [again]
    exact isSetUp_of_setup t up
  · rwa [isSetUp_perform again (ne_of_mem_of_not_mem member kept)]

theorem idle_after {history : List Action} (down : s.inst.isSetUp = false)
    (none : .setup ∉ history) : (s.after history).inst.isSetUp = false := by
  refine after_induction (P := fun t => t.inst.isSetUp = false) down fun t a member down => ?_
  by_cases again : a = .destroy
  · rw [again]
    rfl
  · rwa [isSetUp_perform (ne_of_mem_of_not_mem member none) again]

theorem verified_perform {a : Action} (down : s.inst.isSetUp = false) (other : a ≠ .verify) :
    (s.perform a).inst.verified = true → s.inst.verified = true := by
  cases a with
  | setup =>
    refine getD_toOption_cases
      (P := fun j : Instance => j.verified = true → s.inst.verified = true) id fun j done => ?_
    obtain ⟨image, locals, -, rfl⟩ := Instance.setup_eq_ok done
    exact id
  | destroy => exact nofun
  | verify => exact absurd rfl other
  | addRegion r =>
    refine getD_toOption_cases
      (P := fun j : Instance => j.verified = true → s.inst.verified = true) id fun j done => ?_
    obtain ⟨_, _, _, -, -, rfl⟩ := Instance.addRegion_eq_ok done
    exact id
  | execute host r1 =>
    rw [perform, Instance.execute_of_idle down]
    exact id
  | executeContext host argument =>
    rw [perform, Instance.executeContext_of_idle down]
    exact id
  | register code name handler => exact id
  | touch host change =>
    obtain ⟨body, kept⟩ := Instance.exists_body_withWorld s.inst (change (s.inst.world host))
    rw [perform, kept]
    exact id

theorem unverified_after {history : List Action} (down : s.inst.isSetUp = false)
    (unverified : s.inst.verified = false) (noSetup : .setup ∉ history)
    (noVerify : .verify ∉ history) : (s.after history).inst.verified = false := by
  refine And.right (after_induction
    (P := fun t => t.inst.isSetUp = false ∧ t.inst.verified = false) ⟨down, unverified⟩ ?_)
  rintro t a member ⟨down, unverified⟩
  have other : .setup ∉ [a] := by
    rw [List.mem_singleton]
    exact (ne_of_mem_of_not_mem member noSetup).symm
  have still : (t.after [a]).inst.isSetUp = false := idle_after down other
  refine ⟨still, Bool.eq_false_iff.mpr fun verified => ?_⟩
  have before := verified_perform down (ne_of_mem_of_not_mem member noVerify) verified
  cases unverified.symm.trans before

end Session

/-- What set-up makes of an instance that was like `before`: the memory that the first set-up made
for the container, with the stack and the local store as they are now. -/
structure Instance.Restored (c : Container) (first before after : Instance) : Prop where
  data : ∃ n, IsLeast {n | 4 ∣ n ∧ c.header.dataLen.toNat + c.header.bssLen.toNat ≤ n} n ∧
    after.data.size = n ∧
    Bytes.toList after.data = Bytes.toList c.data ++ List.replicate (n - c.data.size) 0
  memory : after.memory = { first.memory with stack.bytes := before.stack }
  extensions : after.memory.extensions = []
  argument : after.memory.argument.bytes.size = 0 ∧ after.memory.argument.permission = .none
  state : after.state = .init
  stack : after.stack = before.stack
  locals : ∀ st, before.locals = some st → after.locals = some st
  verified : after.verified = before.verified

theorem Instance.restored_of_fits {i first : Instance} {c : Container} {stack : Bytes}
    (genuine : c.Genuine) (loaded : i.image = some c)
    (fits : c.header.mutableLen ≤ i.config.maxDataSize)
    (start : first.memory = .fresh stack (initialData c) c.rodata) :
    ∃ j, i.setup = .ok j ∧ Restored c first i j ∧
      (i.locals = none → i.config.locals = none →
        j.locals = some (.inMemory i.config.localCapacity)) := by
  refine ⟨_, setup_of_fits loaded fits, ?_, ?_⟩
  · exact {
      data := ⟨_, c.header.isLeast_mutableLen, genuine.size_initialData, toList_initialData c⟩
      memory := by rw [start]; rfl
      extensions := rfl
      argument := ⟨Bytes.size_zeros 0, rfl⟩
      state := rfl
      stack := rfl
      locals := fun st held => by rw [Instance.locals, held]; rfl
      verified := rfl }
  · intro none unlent
    rw [Instance.locals, none, unlent]
    rfl

/-- After any history, set-up answers as it would have at the start: where the data fit it restores
the first memory, and where they do not it is refused and changes nothing. A local store is kept
from one set-up to the next, unless the instance was taken down between them: then the new one is
empty, and the verification is forgotten until it is done again. -/
theorem Session.setup_restores (image : Bytes) (c : Container)
    (parsed : Container.parse image = .ok c) (stack : Option Bytes) (config : InstanceConfig)
    (registry : Registry) (history : List Action) :
    let i := Instance.create (some c) stack config
    let s := (Session.mk i registry).after history
    (c.header.mutableLen ≤ i.config.maxDataSize →
        ∃ first j, i.setup = .ok first ∧ s.inst.setup = .ok j ∧
          Instance.Restored c first s.inst j ∧
          (∀ before between, history = before ++ .setup :: between →
            .destroy ∉ between → ∃ st, s.inst.locals = some st ∧ j.locals = some st) ∧
          ∀ before between, history = before ++ .destroy :: between →
            .setup ∉ between →
            (config.locals = none →
              ∃ st, j.locals = some st ∧ st.size = 0 ∧ st.listed = .ok []) ∧
            (.verify ∉ between → j.verified = false)) ∧
      (i.config.maxDataSize < c.header.mutableLen →
        s.inst.setup = .error (.dataTooLarge c.header.mutableLen i.config.maxDataSize) ∧
          s.perform .setup = s) := by
  intro i s
  have descends : i.Descends s.inst := descends_after ⟨i, registry⟩ history
  have loaded : s.inst.image = some c := descends.image
  constructor
  · intro fits
    obtain ⟨first, set, start⟩ : ∃ first, i.setup = .ok first ∧
        first.memory = .fresh i.stack (Instance.initialData c) c.rodata :=
      ⟨_, Instance.setup_of_fits rfl fits, rfl⟩
    have genuine := Container.genuine_of_parse parsed
    obtain ⟨j, again, restored, fresh⟩ :=
      Instance.restored_of_fits genuine loaded (by rwa [descends.maxDataSize]) start
    refine ⟨first, j, set, again, restored, ?_, ?_⟩
    · rintro before between rfl kept
      -- the earlier set-up succeeded as well, so there is a store from then on
      have midway : i.Descends ((Session.mk i registry).after before).inst :=
        descends_after ⟨i, registry⟩ before
      have up : s.inst.isSetUp = true := by
        rw [show s = _ from after_append ⟨i, registry⟩ before _]
        refine isSetUp_after (s := Session.perform _ .setup) ?_ kept
        rw [perform, Instance.setup_of_fits midway.image (by rwa [midway.maxDataSize])]
        rfl
      obtain ⟨memory, st, live⟩ := Instance.isSetUp_iff_live.mp up
      have held := Instance.locals_of_live live
      exact ⟨st, held, restored.locals st held⟩
    · rintro before between rfl none
      have split : s = Session.after (Session.perform _ .destroy) between :=
        after_append ⟨i, registry⟩ before _
      have down : s.inst.isSetUp = false := by
        rw [split]
        exact idle_after rfl none
      constructor
      · intro unlent
        have missing := Instance.locals_of_not_isSetUp down
        exact ⟨_, fresh missing (descends.unlent unlent), rfl, Store.listed_inMemory _⟩
      · intro noVerify
        rw [restored.verified, split]
        exact unverified_after rfl rfl none noVerify
  · intro exceeds
    rw [← descends.maxDataSize] at exceeds
    have refused := Instance.setup_of_exceeds loaded exceeds
    refine ⟨by rw [refused, descends.maxDataSize], ?_⟩
    rw [perform, refused]
    rfl

def fiveBytes : Container :=
  ContainerSpec.container ⟨1, 0, Bytes.ofList [1, 2, 3], 2, Bytes.zeros 0,
    Text.assemble [0x0000000000000095], 0⟩

theorem Session.setup_restores_fiveBytes :
    let host : Surroundings := ⟨.inMemory 16, .silent, 0⟩
    let i := Instance.create (some fiveBytes) none .standard
    let history : List Action := [.setup,
      .touch host fun w => { w with
        memory.data.bytes := Bytes.ofList [9, 9, 9, 9, 9, 9, 9, 9]
        locals := some (.volatile ⟨16, [(1, 2)]⟩) },
      .addRegion table, .execute host 7, .destroy, .verify]
    let s := (Session.mk i (.standard true)).after history
    ∃ j st, s.inst.setup = .ok j ∧ Bytes.toList j.data = [1, 2, 3, 0, 0, 0, 0, 0] ∧
      j.memory.extensions = [] ∧ j.locals = some st ∧ st.listed = .ok [] := by
  intro host i history s
  have restores := setup_restores fiveBytes.image fiveBytes rfl none .standard (.standard true)
    history
  obtain ⟨first, j, -, again, restored, -, cleared⟩ := restores.1 (by decide)
  obtain ⟨st, empty, -, listed⟩ := (cleared (history.take 4) [.verify] rfl (by simp)).1 rfl
  refine ⟨j, st, again, ?_, restored.extensions, empty, listed⟩
  obtain ⟨n, ⟨⟨divides, holds⟩, least⟩, -, data⟩ := restored.data
  have total : fiveBytes.header.dataLen.toNat + fiveBytes.header.bssLen.toNat = 5 := rfl
  have eight : n = 8 := by
    have := least (show 8 ∈ _ from ⟨by decide, by decide⟩)
    omega
  rw [data, eight]
  rfl

end BytecodeVm
