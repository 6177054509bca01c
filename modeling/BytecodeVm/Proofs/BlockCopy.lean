import BytecodeVm.Proofs.Coherence
import BytecodeVm.Proofs.Rejection

/-! Copying blocks of memory. The copy reads the whole source before it writes, so that every byte
of the destination becomes what the source held at the same offset before the call, however the two
ranges overlap. Both ranges are resolved first, and where one of them cannot be used nothing
changes. -/
namespace BytecodeVm

namespace RegionTable

variable {t t' : RegionTable} {addr addr' size : UInt64} {dst src : Place}

def byteIn? (t : RegionTable) (region offset : Nat) : Option UInt8 :=
  t.toList[region]?.bind fun r => (Bytes.toList r.bytes)[offset]?

/-- The second table is the first one after a copy of `n` bytes: the bytes at the destination are
those that were at the source, and all others are as they were. -/
structure Copied (t t' : RegionTable) (dst src : Place) (n : Nat) : Prop where
  layout : t.Agrees Permission.unwritable t'
  bytes : ∀ region offset, t'.byteIn? region offset =
    if region = dst.index ∧ dst.offset ≤ offset ∧ offset < dst.offset + n then
      t.byteIn? src.index (src.offset + (offset - dst.offset))
    else t.byteIn? region offset

theorem exists_resolve_iff {access : Permission} :
    (∃ bytes, t.resolve addr size access = .ok bytes) ↔
      ∃ place, t.locate addr size access = .ok place := by
  cases located : t.locate addr size access with
  | error e => simp [resolve, located, bind, Except.bind]
  | ok place => simp [resolve, located, bind, Except.bind, pure, Except.pure]

theorem read_of_locate (located : t.locate addr size .read = .ok src) :
    ∃ bytes, t.read addr size = .ok bytes ∧
      ∀ k < size.toNat, (Bytes.toList bytes)[k]? = t.byteIn? src.index (src.offset + k) := by
  obtain ⟨r, grants⟩ := grants_of_locate located
  have region : t.toList[src.index]? = some r := grants.found
  refine ⟨r.bytes.slice src.offset size.toNat, ?_, fun k inside => ?_⟩
  · simp only [read, resolve, located, bind, Except.bind, pure, Except.pure, grants.found,
      Option.getD_some]
  · rw [byteIn?, region, Option.bind_some, Bytes.getElem?_slice _ inside]

theorem byteIn?_put {bytes : Bytes} {access : Permission} {r : Region}
    (grants : dst.Grants t bytes.size access r) (region offset : Nat) :
    (t.put dst bytes).byteIn? region offset =
      if region = dst.index ∧ dst.offset ≤ offset ∧ offset < dst.offset + bytes.size then
        (Bytes.toList bytes)[offset - dst.offset]?
      else t.byteIn? region offset := by
  have found : t.toList[dst.index]? = some r := grants.found
  by_cases same : region = dst.index
  · subst same
    rw [byteIn?, getElem?_put_self found, Option.bind_some, byteIn?, found, Option.bind_some,
      Bytes.getElem?_overwrite grants.inside]
    simp only [true_and]
  · rw [byteIn?, getElem?_put_of_ne (Ne.symm same), if_neg (fun both => same both.1), byteIn?]

theorem copied_put (target : t.locate addr size .write = .ok dst)
    (origin : t.locate addr' size .read = .ok src) :
    ∃ bytes, t.read addr' size = .ok bytes ∧ t.Copied (t.put dst bytes) dst src size.toNat := by
  obtain ⟨bytes, got, held⟩ := read_of_locate origin
  have length := size_of_read got
  obtain ⟨r, grants⟩ := grants_of_locate target
  rw [← length] at grants
  refine ⟨bytes, got, agrees_put_of_locate target length, fun region offset => ?_⟩
  rw [byteIn?_put grants, length]
  split
  · rename_i within
    exact held _ (by omega)
  · rfl

end RegionTable

namespace Builtin

variable {w : World} {a : Arguments}

theorem memcpy_of_zero (zero : a.r3 = 0) : memcpy w a = (.value 0, w) := by
  rw [memcpy, if_pos zero]

theorem memcpy_of_located {dst src : RegionTable.Place} (nonempty : a.r3 ≠ 0)
    (target : w.memory.locate a.r1 a.r3 .write = .ok dst)
    (origin : w.memory.locate a.r2 a.r3 .read = .ok src) :
    ∃ t, memcpy w a = (.value 0, { w with memory := t }) ∧
      w.memory.Copied t dst src a.r3.toNat := by
  obtain ⟨bytes, got, copied⟩ := RegionTable.copied_put target origin
  refine ⟨_, ?_, copied⟩
  simp only [memcpy, if_neg nonempty, target, got]

theorem memcpy_of_closed (nonempty : a.r3 ≠ 0)
    (closed : ¬ ((∃ bytes, w.memory.resolve a.r1 a.r3 .write = .ok bytes) ∧
      ∃ bytes, w.memory.resolve a.r2 a.r3 .read = .ok bytes)) : memcpy w a = reject w := by
  rw [memcpy, if_neg nonempty]
  split
  · rfl
  · rename_i target
    split
    · rfl
    · rename_i got
      exact absurd ⟨RegionTable.exists_resolve_iff.mpr ⟨_, target⟩, ⟨_, got⟩⟩ closed

end Builtin

namespace Instance

theorem exists_live_of_locate {i : Instance} {addr size : UInt64} {access : Permission}
    {place : RegionTable.Place} (nonempty : size ≠ 0)
    (located : i.memory.locate addr size access = .ok place) :
    ∃ locals, i.body = .live i.memory locals := by
  cases body : i.body with
  | live memory locals => exact ⟨locals, by rw [memory_of_live body]⟩
  | idle stack =>
    rw [memory, body] at located
    obtain ⟨e, refused⟩ := RegionTable.error_of_resolve_blank nonempty
    cases located.symm.trans (RegionTable.resolve_eq_error_iff.mp refused)

theorem invoke_of_memory {i : Instance} {host : Surroundings} {handler : Handler} {a : Arguments}
    {reply : Reply} {memory t : RegionTable} {locals : Store} (live : i.body = .live memory locals)
    (h : handler (i.world host) a = (reply, { i.world host with memory := t })) :
    i.invoke host handler a = (reply, { i with body := .live t locals }, host) := by
  simp only [invoke, h, withWorld, live]
  simp only [world, Instance.locals, live, Option.getD_some]

section

variable {i : Instance} {host : Surroundings} {a : Arguments}

theorem invoke_memcpy_of_zero (zero : a.r3 = 0) :
    i.invoke host Builtin.memcpy a = (.value 0, i, host) :=
  invoke_of_unchanged (Builtin.memcpy_of_zero zero)

theorem invoke_memcpy_of_located (host : Surroundings) {dst src : RegionTable.Place}
    (nonempty : a.r3 ≠ 0)
    (target : i.memory.locate a.r1 a.r3 .write = .ok dst)
    (origin : i.memory.locate a.r2 a.r3 .read = .ok src) :
    ∃ t locals, i.body = .live i.memory locals ∧
      i.invoke host Builtin.memcpy a = (.value 0, { i with body := .live t locals }, host) ∧
      i.memory.Copied t dst src a.r3.toNat := by
  obtain ⟨locals, live⟩ := exists_live_of_locate nonempty target
  obtain ⟨t, done, copied⟩ := Builtin.memcpy_of_located (w := i.world host) nonempty target origin
  exact ⟨t, locals, live, invoke_of_memory live done, copied⟩

theorem invoke_memcpy_of_closed (nonempty : a.r3 ≠ 0)
    (closed : ¬ ((∃ bytes, i.memory.resolve a.r1 a.r3 .write = .ok bytes) ∧
      ∃ bytes, i.memory.resolve a.r2 a.r3 .read = .ok bytes)) :
    i.invoke host Builtin.memcpy a = (.value Builtin.failure, i, host) :=
  invoke_of_unchanged (Builtin.memcpy_of_closed (w := i.world host) nonempty closed)

theorem invoke_memcpy_eq_zero_iff :
    (i.invoke host Builtin.memcpy a).1 = .value 0 ↔
      a.r3 = 0 ∨ (∃ bytes, i.memory.resolve a.r1 a.r3 .write = .ok bytes) ∧
        ∃ bytes, i.memory.resolve a.r2 a.r3 .read = .ok bytes := by
  constructor
  · intro answered
    by_contra neither
    obtain ⟨nonempty, closed⟩ := not_or.mp neither
    rw [invoke_memcpy_of_closed nonempty closed] at answered
    exact Builtin.zero_ne_failure (Reply.value.inj answered).symm
  · intro accepted
    by_cases zero : a.r3 = 0
    · rw [invoke_memcpy_of_zero zero]
    · obtain ⟨writable, readable⟩ := accepted.resolve_left zero
      obtain ⟨dst, target⟩ := RegionTable.exists_resolve_iff.mp writable
      obtain ⟨src, origin⟩ := RegionTable.exists_resolve_iff.mp readable
      obtain ⟨t, locals, -, done, -⟩ := invoke_memcpy_of_located host zero target origin
      rw [done]

end

/-- Copying is exact and safe under overlap. The call answers with zero if and only if the length is
zero or the destination resolves for writing and the source for reading, which is so in unbounded
integers too. Then every byte of the destination is what the source held at its offset before the
call, and all other bytes, the stores and the console are as they were. A copy of no bytes and a
refused call change nothing. -/
theorem block_copy_exact (i : Instance) (host : Surroundings) (a : Arguments) :
    (∀ hashing, (Registry.standard hashing).find? 0x02 =
      some ⟨0x02, "bpf_memcpy", Builtin.memcpy⟩) ∧
    ((i.invoke host Builtin.memcpy a).1 = .value 0 ↔
      a.r3 = 0 ∨ (∃ bytes, i.memory.resolve a.r1 a.r3 .write = .ok bytes) ∧
        ∃ bytes, i.memory.resolve a.r2 a.r3 .read = .ok bytes) ∧
    (i.memory.Sized → ((i.invoke host Builtin.memcpy a).1 = .value 0 ↔
      a.r3 = 0 ∨ (∃ bytes, i.memory.Translates a.r1.toNat a.r3.toNat .write bytes) ∧
        ∃ bytes, i.memory.Translates a.r2.toNat a.r3.toNat .read bytes)) ∧
    (a.r3 = 0 → i.invoke host Builtin.memcpy a = (.value 0, i, host)) ∧
    (∀ dst src, a.r3 ≠ 0 → i.memory.locate a.r1 a.r3 .write = .ok dst →
      i.memory.locate a.r2 a.r3 .read = .ok src →
      ∃ t locals, i.body = .live i.memory locals ∧
        i.invoke host Builtin.memcpy a = (.value 0, { i with body := .live t locals }, host) ∧
        i.memory.Copied t dst src a.r3.toNat) ∧
    ((i.invoke host Builtin.memcpy a).1 ≠ .value 0 →
      i.invoke host Builtin.memcpy a = (.value Builtin.failure, i, host)) := by
  refine ⟨fun hashing => by cases hashing <;> rfl, invoke_memcpy_eq_zero_iff, fun sized => ?_,
    invoke_memcpy_of_zero, fun dst src => invoke_memcpy_of_located host, fun other => ?_⟩
  · simp only [invoke_memcpy_eq_zero_iff, sized.resolve_eq_ok_iff]
  · rw [ne_eq, invoke_memcpy_eq_zero_iff, not_or] at other
    exact invoke_memcpy_of_closed other.1 other.2

end Instance

def numbered : Instance where
  image := none
  config := .standard
  body := .live (.fresh (Bytes.ofList [1, 2, 3, 4, 5, 6, 7, 8]) (Bytes.zeros 0) (Bytes.zeros 0))
    (.inMemory 4)
  budget := .ofLimit 1
  state := .init
  verified := false

theorem block_copy_exact_numbered :
    let a : Arguments := ⟨0x300000002, 0x300000000, 5, 0, 0⟩
    numbered.memory.locate a.r1 a.r3 .write = .ok ⟨0, 2⟩ ∧
      numbered.memory.locate a.r2 a.r3 .read = .ok ⟨0, 0⟩ ∧
      ∃ t locals, numbered.invoke fullHost Builtin.memcpy a =
          (.value 0, { numbered with body := .live t locals }, fullHost) ∧
        t.byteIn? 0 1 = some 2 ∧ t.byteIn? 0 2 = some 1 ∧ t.byteIn? 0 4 = some 3 ∧
        t.byteIn? 0 6 = some 5 ∧ t.byteIn? 0 7 = some 8 := by
  intro a
  have target : numbered.memory.locate a.r1 a.r3 .write = .ok ⟨0, 2⟩ := by decide +kernel
  have origin : numbered.memory.locate a.r2 a.r3 .read = .ok ⟨0, 0⟩ := by decide +kernel
  obtain ⟨-, -, -, -, copies, -⟩ := Instance.block_copy_exact numbered fullHost a
  obtain ⟨t, locals, -, done, copied⟩ := copies _ _ (by decide) target origin
  refine ⟨target, origin, t, locals, done, ?_⟩
  simp only [copied.bytes]
  decide +kernel

end BytecodeVm
