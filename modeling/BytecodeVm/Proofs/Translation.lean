import BytecodeVm.Proofs.Calls
import BytecodeVm.Proofs.Layout
import BytecodeVm.Proofs.WriteIsolation
import Mathlib

/-! Exact address translation. Addresses and sizes are 64-bit words; here they are read as integers,
which do not wrap. A range translates where the first region that covers it grants the access, and
then to exactly its bytes. Loads and stores ask for the integer sum of base and offset, or fail. -/
namespace BytecodeVm

def Permission.Includes (p access : Permission) : Prop :=
  ∀ k, access.bits.toNat.testBit k = true → p.bits.toNat.testBit k = true

theorem Permission.allows_iff (p access : Permission) :
    p.allows access = true ↔ p.Includes access := by
  rw [allows, beq_iff_eq, ← UInt8.toNat_inj, UInt8.toNat_and]
  constructor
  · intro same k wanted
    rw [← same, Nat.testBit_and, Bool.and_eq_true] at wanted
    exact wanted.1
  · intro includes
    apply Nat.eq_of_testBit_eq
    intro k
    rw [Nat.testBit_and]
    cases wanted : access.bits.toNat.testBit k with
    | false => rw [Bool.and_false]
    | true => rw [includes k wanted, Bool.and_true]

theorem toNat_roomAfter (addr : UInt64) : (roomAfter addr).toNat = 2 ^ 64 - 1 - addr.toNat := by
  rw [roomAfter, UInt64.toNat_not, UInt64.size]
  omega

namespace Region

variable {r : Region} {addr size : UInt64}

def Covers (r : Region) (addr size : Nat) : Prop :=
  r.start.toNat ≤ addr ∧ addr + size ≤ r.start.toNat + r.bytes.size

instance (r : Region) (addr size : Nat) : Decidable (r.Covers addr size) :=
  inferInstanceAs (Decidable (_ ∧ _))

theorem covers_of_holds (h : r.holds addr size = true) : r.Covers addr.toNat size.toNat := by
  have inside := offset_add_le_of_holds h
  simp only [holds, Bool.and_eq_true, decide_eq_true_eq] at h
  have start := UInt64.le_iff_toNat_le.mp h.1.1
  rw [UInt64.toNat_sub_of_le _ _ h.1.1] at inside
  exact ⟨start, by omega⟩

theorem holds_iff_covers (sized : r.bytes.size < 2 ^ 63) :
    r.holds addr size = true ↔ r.Covers addr.toNat size.toNat := by
  refine ⟨covers_of_holds, fun ⟨start, stop⟩ => ?_⟩
  have length : r.length.toNat = r.bytes.size := by
    rw [length, UInt64.toNat_ofNat']
    omega
  have above : r.start ≤ addr := UInt64.le_iff_toNat_le.mpr start
  have offset := UInt64.toNat_sub_of_le addr r.start above
  have within : addr - r.start ≤ r.length := by
    rw [UInt64.le_iff_toNat_le, offset, length]
    omega
  simp only [holds, Bool.and_eq_true, decide_eq_true_eq]
  refine ⟨⟨above, within⟩, ?_⟩
  rw [UInt64.le_iff_toNat_le, UInt64.toNat_sub_of_le _ _ within, offset, length]
  omega

end Region

theorem find?_of_findIdx? {α : Type} {p : α → Bool} {l : List α} {i : Nat}
    (h : l.findIdx? p = some i) : l.find? p = l[i]? := by
  obtain ⟨inside, holds, before⟩ := List.findIdx?_eq_some_iff_getElem.mp h
  rw [List.getElem?_eq_getElem inside, List.find?_eq_some_iff_getElem]
  refine ⟨holds, i, inside, rfl, fun j earlier => ?_⟩
  simpa using before j earlier

namespace RegionTable

variable {t t' : RegionTable} {addr size : UInt64} {access : Permission} {place : Place}

/-- What a successful search has found: a region that holds the range, before any other that does,
and grants the access. -/
structure Locates (t : RegionTable) (addr size : UInt64) (access : Permission) (place : Place)
    (r : Region) : Prop where
  region : t.toList[place.index]? = some r
  first : t.toList.find? (·.holds addr size) = some r
  granted : r.permission.allows access = true
  offset : place.offset = (addr - r.start).toNat

theorem locates_of_locate (h : t.locate addr size access = .ok place) :
    ∃ r, t.Locates addr size access place r := by
  unfold locate at h
  split at h
  · cases h
  · split at h
    · cases h
    · rename_i i found
      have first := find?_of_findIdx? found
      obtain ⟨inside, -, -⟩ := List.findIdx?_eq_some_iff_getElem.mp found
      have region : t.toList[i]? = some t.toList[i] := List.getElem?_eq_getElem inside
      simp only [get?, region, Option.getD_some] at h
      split at h
      · rename_i granted
        cases h
        exact ⟨t.toList[i], region, first.trans region, granted, rfl⟩
      · cases h

theorem Locates.holds {r : Region} (h : t.Locates addr size access place r) :
    r.holds addr size = true := by
  simpa using List.find?_some h.first

theorem resolve_eq (t : RegionTable) (addr size : UInt64) (access : Permission) :
    t.resolve addr size access =
      if roomAfter addr < size then .error (.overflow addr size)
      else match t.toList.find? (·.holds addr size) with
        | none => .error (.unmapped addr size)
        | some r =>
          if r.permission.allows access then
            .ok (r.bytes.slice (addr - r.start).toNat size.toNat)
          else .error (.denied access r.name addr size) := by
  rw [resolve, locate]
  split
  · rfl
  · cases found : t.toList.findIdx? (·.holds addr size) with
    | none =>
      have nowhere : t.toList.find? (·.holds addr size) = none := by
        rw [List.findIdx?_eq_none_iff] at found
        simpa using found
      rw [nowhere]
      rfl
    | some i =>
      obtain ⟨inside, -, -⟩ := List.findIdx?_eq_some_iff_getElem.mp found
      have region : t.toList[i]? = some t.toList[i] := List.getElem?_eq_getElem inside
      rw [find?_of_findIdx? found, region]
      simp only [get?, region, Option.getD_some]
      split
      · simp only [bind, Except.bind, pure, Except.pure, region, Option.getD_some]
      · rfl

def first? (t : RegionTable) (addr size : Nat) : Option Region :=
  t.toList.find? fun r => decide (r.Covers addr size)

/-- The range of `size` bytes at `addr` is open for the access and holds the given bytes. -/
structure Translates (t : RegionTable) (addr size : Nat) (access : Permission) (bytes : Bytes) :
    Prop where
  room : addr + size ≤ 2 ^ 64 - 1
  region : ∃ r, t.first? addr size = some r ∧ r.permission.Includes access ∧
    bytes = r.bytes.slice (addr - r.start.toNat) size

def Sized (t : RegionTable) : Prop := ∀ r ∈ t.toList, r.bytes.size < 2 ^ 63

theorem Sized.find?_holds (sized : t.Sized) (addr size : UInt64) :
    t.toList.find? (·.holds addr size) = t.first? addr.toNat size.toNat := by
  have same : ∀ r ∈ t.toList, r.holds addr size = decide (r.Covers addr.toNat size.toNat) := by
    intro r listed
    rw [Bool.eq_iff_iff, decide_eq_true_eq]
    exact Region.holds_iff_covers (sized r listed)
  rw [first?]
  generalize t.toList = l at same
  induction l with
  | nil => rfl
  | cons r rest ih =>
    rw [List.forall_mem_cons] at same
    rw [List.find?_cons, List.find?_cons, same.1, ih same.2]

theorem covers_of_first? {r : Region} {a n : Nat} (h : t.first? a n = some r) : r.Covers a n := by
  simpa using List.find?_some h

theorem Sized.resolve_eq_ok_iff (sized : t.Sized) {bytes : Bytes} :
    t.resolve addr size access = .ok bytes ↔
      t.Translates addr.toNat size.toNat access bytes := by
  have room : roomAfter addr < size ↔ ¬ addr.toNat + size.toNat ≤ 2 ^ 64 - 1 := by
    have bound := addr.toNat_lt
    rw [UInt64.lt_iff_toNat_lt, toNat_roomAfter]
    omega
  rw [resolve_eq, sized.find?_holds]
  constructor
  · intro done
    split at done
    · cases done
    · rename_i fits
      rw [room, not_not] at fits
      split at done
      · cases done
      · rename_i r found
        split at done
        · rename_i granted
          cases done
          have start := (covers_of_first? found).1
          refine ⟨fits, r, found, (Permission.allows_iff _ _).mp granted, ?_⟩
          rw [UInt64.toNat_sub_of_le _ _ (UInt64.le_iff_toNat_le.mpr start)]
        · cases done
  · rintro ⟨fits, r, found, includes, rfl⟩
    have start := (covers_of_first? found).1
    have inside : ¬ roomAfter addr < size := by rwa [room, not_not]
    rw [if_neg inside, found]
    dsimp only
    rw [if_pos ((Permission.allows_iff _ _).mpr includes),
      UInt64.toNat_sub_of_le _ _ (UInt64.le_iff_toNat_le.mpr start)]

theorem store_eq_error_iff {width : AccessSize} {x : UInt64} {e : MemoryError} :
    t.store addr width.bytes x = .error e ↔
      t.resolve addr (UInt64.ofNat width.bytes) .write = .error e := by
  rw [resolve_eq_error_iff, store, write, Bytes.size_ofList, LittleEndian.length_ofNat]
  cases t.locate addr (UInt64.ofNat width.bytes) .write with
  | error e' => simp [bind, Except.bind]
  | ok place => simp [bind, Except.bind, pure, Except.pure]

end RegionTable

theorem effectiveAddress_eq_some_iff {base addr : UInt64} {offset : Int16} :
    effectiveAddress base offset = some addr ↔ (addr.toNat : Int) = base.toNat + offset.toInt := by
  have low := offset.le_toInt
  have high := offset.toInt_lt
  have base_lt := base.toNat_lt
  have addr_lt := addr.toNat_lt
  unfold effectiveAddress
  split
  · rename_i forward
    have step : (UInt64.ofNat offset.toInt.toNat).toNat = offset.toInt.toNat :=
      UInt64.toNat_ofNat_of_lt' (by rw [UInt64.size]; omega)
    have sum := UInt64.toNat_add base (UInt64.ofNat offset.toInt.toNat)
    rw [step] at sum
    dsimp only
    split
    · rename_i stays
      rw [UInt64.le_iff_toNat_le] at stays
      rw [Option.some.injEq, ← UInt64.toNat_inj]
      omega
    · rename_i wraps
      rw [UInt64.le_iff_toNat_le] at wraps
      simp only [reduceCtorEq, false_iff]
      omega
  · rename_i back
    have step : (UInt64.ofNat offset.toInt.natAbs).toNat = offset.toInt.natAbs :=
      UInt64.toNat_ofNat_of_lt' (by rw [UInt64.size]; omega)
    dsimp only
    split
    · rename_i stays
      have difference := UInt64.toNat_sub_of_le _ _ stays
      rw [UInt64.le_iff_toNat_le, step] at stays
      rw [Option.some.injEq, ← UInt64.toNat_inj]
      omega
    · rename_i wraps
      rw [UInt64.le_iff_toNat_le, step] at wraps
      simp only [reduceCtorEq, false_iff]
      omega

theorem effectiveAddress_eq_none {base : UInt64} {offset : Int16}
    (outside : (base.toNat : Int) + offset.toInt < 0 ∨ 2 ^ 64 ≤ base.toNat + offset.toInt) :
    effectiveAddress base offset = none := by
  cases found : effectiveAddress base offset with
  | none => rfl
  | some addr =>
    have named := effectiveAddress_eq_some_iff.mp found
    have bound := addr.toNat_lt
    omega

namespace Cpu

variable {p : Program} {s : Cpu} {i : Instruction} {size : AccessSize} {source : Source} {c : Cell}

theorem step_of_load (met : p.code[s.pc]? = some i) (kind : i.kind = .load size)
    (base : i.src.cell? = some c) :
    s.step p = match effectiveAddress (s.registers.get c) i.offset with
      | none => s.fail (.addressWraps i.src i.offset)
      | some addr =>
        match s.world.memory.resolve addr (UInt64.ofNat size.bytes) .read with
        | .error e => s.fail (.memory e)
        | .ok bytes => s.withCell i.dst fun dst =>
            s.assign dst (UInt64.ofNat (LittleEndian.toNat bytes.toList)) := by
  simp only [step, met, execute, kind, stepLoad, withCell, base]
  cases effectiveAddress (s.registers.get c) i.offset with
  | none => rfl
  | some addr =>
    dsimp only
    rw [RegionTable.load, RegionTable.read]
    cases s.world.memory.resolve addr (UInt64.ofNat size.bytes) .read <;> rfl

theorem step_of_store (met : p.code[s.pc]? = some i)
    (kind : i.kind = .storeImmediate size ∧ source = .immediate ∨
      i.kind = .storeRegister size ∧ source = .register) (base : i.dst.cell? = some c) :
    s.step p = match effectiveAddress (s.registers.get c) i.offset with
      | none => s.fail (.addressWraps i.dst i.offset)
      | some addr => s.withOperand i source fun v =>
        match s.world.memory.store addr size.bytes v with
        | .error e => s.fail (.memory e)
        | .ok memory => .next { s with world.memory := memory, pc := s.pc + 1 } := by
  rcases kind with ⟨kind, rfl⟩ | ⟨kind, rfl⟩
  all_goals
    simp only [step, met, execute, kind, stepStore, withCell, base]
    cases effectiveAddress (s.registers.get c) i.offset with
    | none => rfl
    | some addr =>
      dsimp only
      congr
      funext v
      cases s.world.memory.store addr size.bytes v <;> rfl

end Cpu

/-- The order in which regions are consulted: stack, data, read-only data, the regions of the host's
with the newest first, and the argument. -/
def RegionTable.Consults (t : RegionTable) (rs : List Region) : Prop :=
  ∃ stack data rodata argument permission, t.toList =
    ⟨"stack", stackBase, stack, .readWrite⟩ :: ⟨"data", dataBase, data, .readWrite⟩ ::
      ⟨"rodata", rodataBase, rodata, .read⟩ ::
      (rs.reverse ++ [⟨"arg", argumentBase, argument, permission⟩])

namespace Instance

/-- The instances that set-up, the mapping of regions and that of an argument lead to, with the
regions of the host's in the order in which they were mapped. -/
inductive Mapped : List Region → Instance → Prop
  | setup {i j : Instance} (done : i.setup = .ok j) : Mapped [] j
  | added {i j : Instance} {rs : List Region} {r : Region} (earlier : Mapped rs i)
      (done : i.addRegion r = .ok j) : Mapped (rs ++ [r]) j
  | passed {i : Instance} {rs : List Region} (earlier : Mapped rs i) (argument : Bytes) :
      Mapped rs (i.mapArgument argument)
  | opened {i : Instance} {rs : List Region} (earlier : Mapped rs i) : Mapped rs i.openArgument

theorem Mapped.live {i : Instance} {rs : List Region} (h : i.Mapped rs) :
    ∃ stack data rodata argument permission locals, i.body = .live
      ⟨⟨"stack", RegionTable.stackBase, stack, .readWrite⟩,
        ⟨"data", RegionTable.dataBase, data, .readWrite⟩,
        ⟨"rodata", RegionTable.rodataBase, rodata, .read⟩, rs.reverse,
        ⟨"arg", RegionTable.argumentBase, argument, permission⟩⟩ locals := by
  induction h with
  | setup done =>
    obtain ⟨image, locals, -, rfl⟩ := setup_eq_ok done
    exact ⟨_, _, _, _, _, locals, rfl⟩
  | added _ done ih =>
    obtain ⟨stack, data, rodata, argument, permission, locals, live⟩ := ih
    obtain ⟨memory, locals', memory', live', mapped, rfl⟩ := addRegion_eq_ok done
    cases live.symm.trans live'
    unfold RegionTable.add at mapped
    split at mapped
    · cases mapped
    · split at mapped
      · cases mapped
      · cases mapped
        rw [List.reverse_append]
        exact ⟨stack, data, rodata, argument, permission, locals, rfl⟩
  | passed _ bytes ih =>
    obtain ⟨stack, data, rodata, argument, permission, locals, live⟩ := ih
    exact ⟨stack, data, rodata, bytes, permission, locals, body_mapArgument live bytes⟩
  | opened _ ih =>
    obtain ⟨stack, data, rodata, argument, permission, locals, live⟩ := ih
    exact ⟨stack, data, rodata, argument, .readWrite, locals, body_openArgument live⟩

theorem Mapped.consults {i : Instance} {rs : List Region} (h : i.Mapped rs) :
    i.memory.Consults rs := by
  obtain ⟨stack, data, rodata, argument, permission, locals, live⟩ := h.live
  refine ⟨stack, data, rodata, argument, permission, ?_⟩
  rw [memory_of_live live]
  rfl

end Instance

namespace RegionTable

/-- Translation is exact. A range resolves if and only if it does so in unbounded integers: it ends
by the last address, and the first region that covers it includes all rights that are asked for.
It resolves to the bytes of that region at its place, or fails as an illegal access to memory. Loads
and stores ask for the integer sum of base and offset, and fail where no address is that sum. -/
theorem translation_exact (t : RegionTable) (sized : t.Sized) :
    (∀ (i : Instance) rs, i.Mapped rs → i.memory = t → t.Consults rs) ∧
      (∀ addr size access bytes, t.resolve addr size access = .ok bytes ↔
        t.Translates addr.toNat size.toNat access bytes) ∧
      (∀ addr size access, (∀ bytes, ¬ t.Translates addr.toNat size.toNat access bytes) →
        ∃ e, t.resolve addr size access = .error e ∧
          (StepError.memory e).fault? = some .illegalMemory) ∧
      (∀ addr (width : AccessSize) x e, t.store addr width.bytes x = .error e ↔
        t.resolve addr (UInt64.ofNat width.bytes) .write = .error e) ∧
      (∀ (p : Program) (s : Cpu) i width base, s.world.memory = t → p.code[s.pc]? = some i →
        i.kind = .load width → i.src.cell? = some base →
        let sum : Int := (s.registers.get base).toNat + i.offset.toInt
        (sum < 0 ∨ 2 ^ 64 ≤ sum →
            ∃ e, s.step p = s.fail e ∧ e.fault? = some .illegalMemory) ∧
          ∀ addr : UInt64, (addr.toNat : Int) = sum →
            s.step p = match t.resolve addr (UInt64.ofNat width.bytes) .read with
              | .error e => s.fail (.memory e)
              | .ok bytes => s.withCell i.dst fun dst =>
                  s.assign dst (UInt64.ofNat (LittleEndian.toNat bytes.toList))) ∧
      ∀ (p : Program) (s : Cpu) i width source base, s.world.memory = t →
        p.code[s.pc]? = some i →
        (i.kind = .storeImmediate width ∧ source = .immediate ∨
          i.kind = .storeRegister width ∧ source = .register) → i.dst.cell? = some base →
        let sum : Int := (s.registers.get base).toNat + i.offset.toInt
        (sum < 0 ∨ 2 ^ 64 ≤ sum →
            ∃ e, s.step p = s.fail e ∧ e.fault? = some .illegalMemory) ∧
          ∀ addr : UInt64, (addr.toNat : Int) = sum →
            s.step p = s.withOperand i source fun v =>
              match t.store addr width.bytes v with
              | .error e => s.fail (.memory e)
              | .ok memory => .next { s with world.memory := memory, pc := s.pc + 1 } := by
  refine ⟨fun i rs mapped same => same ▸ mapped.consults,
    fun _ _ _ _ => sized.resolve_eq_ok_iff, ?_, fun _ _ _ _ => store_eq_error_iff, ?_, ?_⟩
  · intro addr size access nothing
    cases answer : t.resolve addr size access with
    | ok bytes => exact absurd (sized.resolve_eq_ok_iff.mp answer) (nothing bytes)
    | error e => exact ⟨e, rfl, rfl⟩
  · rintro p s i width base rfl met kind cell sum
    have step := Cpu.step_of_load met kind cell
    refine ⟨fun outside => ?_, fun addr named => ?_⟩
    · rw [effectiveAddress_eq_none outside] at step
      exact ⟨_, step, rfl⟩
    · rw [effectiveAddress_eq_some_iff.mpr named] at step
      exact step
  · rintro p s i width source base rfl met kind cell sum
    have step := Cpu.step_of_store met kind cell
    refine ⟨fun outside => ?_, fun addr named => ?_⟩
    · rw [effectiveAddress_eq_none outside] at step
      exact ⟨_, step, rfl⟩
    · rw [effectiveAddress_eq_some_iff.mpr named] at step
      exact step

end RegionTable

theorem translation_exact_overlapping :
    let t := overlapping.memory
    let s := overlapping.boot ⟨.inMemory 16, .silent, 0⟩ 7
    t.Sized ∧ overlapping.Mapped [table, window] ∧ t.Consults [table, window] ∧
      t.Translates 0x500000000 8 .write (Bytes.zeros 8) ∧
      (∃ e, t.store 0x500000001 8 0 = .error e ∧
        t.resolve 0x500000001 8 .write = .error e) ∧
      ∃ e, s.step ⟨#[⟨0x71, 0, 1, -8, 0⟩], fun _ => none⟩ = s.fail e ∧
        e.fault? = some .illegalMemory := by
  intro t s
  have sized : t.Sized := by
    unfold RegionTable.Sized
    decide +kernel
  have mapped : overlapping.Mapped [table, window] :=
    .added (.added
      (.setup (show (Instance.create (some windowStores) none .standard).setup = .ok _ from rfl))
      (show Instance.addRegion _ table = .ok _ from rfl))
      (show Instance.addRegion _ window = .ok overlapping from rfl)
  obtain ⟨order, resolved, -, writes, loads, -⟩ := RegionTable.translation_exact t sized
  refine ⟨sized, mapped, order overlapping _ mapped rfl, (resolved 0x500000000 8 .write _).mp ?_,
    ⟨.denied .write "table" 0x500000001 8, ?_⟩, ?_⟩
  · decide +kernel
  · have refused : t.resolve 0x500000001 8 .write =
        .error (.denied .write "table" 0x500000001 8) := by
      decide +kernel
    exact ⟨(writes 0x500000001 .double 0 _).mpr refused, refused⟩
  · exact (loads _ s ⟨0x71, 0, 1, -8, 0⟩ .byte .first rfl rfl rfl rfl).1 (.inl (by decide))

end BytecodeVm
