import BytecodeVm.Instance
import BytecodeVm.Proofs.ContainerFormat
import BytecodeVm.Proofs.Regions

/-! The layout of memory. The regions of an instance have fixed places, each in a window of its own.
The sections of a container fit theirs; a stack that is too long for its window reaches into the one
of the argument. -/
namespace BytecodeVm

theorem and_add_and_not (x mask : UInt64) : (x &&& mask) + (x &&& ~~~mask) = x := by
  apply UInt64.toBitVec_inj.mp
  rw [UInt64.toBitVec_add, UInt64.toBitVec_and, UInt64.toBitVec_and, UInt64.toBitVec_not,
    BitVec.add_eq_or_of_and_eq_zero]
  · ext i
    simp [← Bool.and_or_distrib_left]
  · ext i
    simp
    grind

theorem Header.toNat_mutableLen (h : Header) :
    h.mutableLen.toNat = (h.dataLen.toNat + h.bssLen.toNat + 3) / 4 * 4 := by
  have data := h.dataLen.toNat_lt
  have bss := h.bssLen.toNat_lt
  let n := h.dataLen.toUInt64 + h.bssLen.toUInt64 + 3
  have total : n.toNat = h.dataLen.toNat + h.bssLen.toNat + 3 := by
    simp only [n, UInt64.toNat_add, UInt32.toNat_toUInt64, UInt64.toNat_ofNat]
    omega
  have low : (n &&& 3).toNat = n.toNat % 4 := by
    rw [UInt64.toNat_and]
    exact Nat.and_two_pow_sub_one_eq_mod n.toNat 2
  have high : h.mutableLen.toNat ≤ n.toNat := by
    rw [mutableLen, UInt64.toNat_and]
    exact Nat.and_le_left
  have split := congrArg UInt64.toNat (and_add_and_not n 3)
  rw [UInt64.toNat_add] at split
  change ((n &&& 3).toNat + h.mutableLen.toNat) % _ = _ at split
  omega

theorem Header.mutableLen_bounds (h : Header) :
    h.dataLen.toNat ≤ h.mutableLen.toNat ∧
      h.mutableLen.toNat ≤ h.dataLen.toNat + h.bssLen.toNat + 3 := by
  rw [h.toNat_mutableLen]
  omega

theorem Container.Genuine.size_initialData {c : Container} (h : c.Genuine) :
    (Instance.initialData c).size = c.header.mutableLen.toNat := by
  have fits := c.header.mutableLen_bounds.1
  have data := h.data
  have zeros := Bytes.size_zeros c.header.mutableLen.toNat
  rw [Instance.initialData, Bytes.size_overwrite_of_le (by omega), zeros]

namespace Region

structure Lies (r : Region) (name : String) (start : UInt64) (size : Nat)
    (permission : Permission) : Prop where
  name : r.name = name
  start : r.start = start
  size : r.bytes.size = size
  permission : r.permission = permission

variable {r r' : Region} {addr size : UInt64}

theorem Agrees.lies {fixed : Permission → Bool} {name : String} {start : UInt64} {length : Nat}
    {permission : Permission} (h : r.Agrees fixed r') (lies : r.Lies name start length permission) :
    r'.Lies name start length permission :=
  ⟨h.name.symm.trans lies.name, h.start.symm.trans lies.start, h.size.symm.trans lies.size,
    h.permission.symm.trans lies.permission⟩

theorem not_holds_of_empty (empty : r.bytes.size = 0) (nonempty : size ≠ 0) :
    r.holds addr size = false := by
  cases holds : r.holds addr size with
  | false => rfl
  | true =>
    have inside := offset_add_le_of_holds holds
    exact absurd (UInt64.toNat_inj.mp (by rw [UInt64.toNat_zero]; omega)) nonempty

theorem not_holds_of_past (past : r.start.toNat + r.bytes.size ≤ addr.toNat)
    (nonempty : size ≠ 0) : r.holds addr size = false := by
  cases holds : r.holds addr size with
  | false => rfl
  | true =>
    have inside := offset_add_le_of_holds holds
    have start : r.start ≤ addr := UInt64.le_iff_toNat_le.mpr (by omega)
    rw [UInt64.toNat_sub_of_le _ _ start] at inside
    exact absurd (UInt64.toNat_inj.mp (by rw [UInt64.toNat_zero]; omega)) nonempty

end Region

namespace RegionTable

variable {t t' : RegionTable} {addr size : UInt64} {access : Permission}

theorem resolve_eq_error_iff {e : MemoryError} :
    t.resolve addr size access = .error e ↔ t.locate addr size access = .error e := by
  cases located : t.locate addr size access with
  | error e' => simp [resolve, located, bind, Except.bind]
  | ok place => simp [resolve, located, bind, Except.bind, pure, Except.pure]

theorem resolve_eq_unmapped_iff (room : ¬ roomAfter addr < size) :
    t.resolve addr size access = .error (.unmapped addr size) ↔
      ∀ r ∈ t.toList, r.holds addr size = false := by
  rw [resolve_eq_error_iff, locate, if_neg room, ← List.findIdx?_eq_none_iff]
  cases first : t.toList.findIdx? (·.holds addr size) with
  | none => simp
  | some i =>
    dsimp only
    split <;> simp

structure LaidOut (t : RegionTable) (c : Container) (stack : Nat) : Prop where
  stack : t.stack.Lies "stack" stackBase stack .readWrite
  data : t.data.Lies "data" dataBase c.header.mutableLen.toNat .readWrite
  rodata : t.rodata.Lies "rodata" rodataBase c.rodata.size .read
  extensions : t.extensions.length ≤ maxExtensions

theorem Agrees.laidOut {fixed : Permission → Bool} {c : Container} {stack : Nat}
    (h : t.Agrees fixed t') (laid : t.LaidOut c stack) : t'.LaidOut c stack where
  stack := h.stack.lies laid.stack
  data := h.data.lies laid.data
  rodata := h.rodata.lies laid.rodata
  extensions := h.extensions.length_eq ▸ laid.extensions

theorem laidOut_fresh {c : Container} (genuine : c.Genuine) (stack : Bytes) :
    (fresh stack (Instance.initialData c) c.rodata).LaidOut c stack.size where
  stack := ⟨rfl, rfl, rfl, rfl⟩
  data := ⟨rfl, rfl, genuine.size_initialData, rfl⟩
  rodata := ⟨rfl, rfl, rfl, rfl⟩
  extensions := Nat.zero_le _

theorem LaidOut.add {c : Container} {stack : Nat} {r : Region} (h : t.LaidOut c stack)
    (added : t.add r = .ok t') : t'.LaidOut c stack ∧ t'.argument = t.argument := by
  unfold RegionTable.add at added
  split at added
  · cases added
  · split at added
    · cases added
    · rename_i some_left
      cases added
      have bound := h.extensions
      refine ⟨{ h with extensions := ?_ }, rfl⟩
      rw [List.length_cons]
      omega

/-- What the memory of an instance at rest is like, whether it is set up or not: no argument is
mapped, and the sections end below its place. -/
structure Quiet (t : RegionTable) (stack : Nat) : Prop where
  argument : t.argument.bytes.size = 0
  extensions : t.extensions.length ≤ maxExtensions
  data : t.data.start.toNat + t.data.bytes.size ≤ argumentBase.toNat
  rodata : t.rodata.start.toNat + t.rodata.bytes.size ≤ argumentBase.toNat
  stack : t.stack.start.toNat + t.stack.bytes.size ≤ stackBase.toNat + stack

theorem quiet_blank (stack : Nat) : blank.Quiet stack where
  argument := Bytes.size_zeros 0
  extensions := Nat.zero_le _
  data := by simp [blank, Region.blank]
  rodata := by simp [blank, Region.blank]
  stack := by simp [blank, Region.blank]

theorem LaidOut.quiet {c : Container} {stack : Nat} (genuine : c.Genuine) (h : t.LaidOut c stack)
    (empty : t.argument.bytes.size = 0) : t.Quiet stack where
  argument := empty
  extensions := h.extensions
  data := by
    have data := c.header.dataLen.toNat_lt
    have bss := c.header.bssLen.toNat_lt
    have rounded := c.header.mutableLen_bounds.2
    rw [h.data.start, h.data.size, show dataBase.toNat = 4294967296 from rfl,
      show argumentBase.toNat = 17179869184 from rfl]
    omega
  rodata := by
    have short := c.header.rodataLen.toNat_lt
    rw [h.rodata.start, h.rodata.size, genuine.rodata,
      show rodataBase.toNat = 8589934592 from rfl, show argumentBase.toNat = 17179869184 from rfl]
    omega
  stack := Nat.le_of_eq (by rw [h.stack.start, h.stack.size])

def windowSize : Nat := 4294967296

structure InWindow (addr size : UInt64) : Prop where
  nonempty : size ≠ 0
  above : argumentBase ≤ addr
  below : addr.toNat + size.toNat ≤ argumentBase.toNat + windowSize

theorem Quiet.unmapped_iff {stack : Nat} (h : t.Quiet stack) (inside : InWindow addr size)
    (free : ∀ r ∈ t.extensions, r.holds addr size = false) :
    t.resolve addr size access = .error (.unmapped addr size) ↔
      t.stack.holds addr size = false := by
  have above := UInt64.le_iff_toNat_le.mp inside.above
  have room : ¬ roomAfter addr < size := by
    have bound := inside.below
    rw [show argumentBase.toNat = 17179869184 from rfl, windowSize] at bound
    rw [UInt64.lt_iff_toNat_lt, roomAfter, UInt64.toNat_not, UInt64.size]
    omega
  have data := Region.not_holds_of_past (Nat.le_trans h.data above) inside.nonempty
  have rodata := Region.not_holds_of_past (Nat.le_trans h.rodata above) inside.nonempty
  have argument : t.argument.holds addr size = false :=
    Region.not_holds_of_empty h.argument inside.nonempty
  rw [resolve_eq_unmapped_iff room]
  simp only [toList, List.forall_mem_cons, List.forall_mem_append, data, rodata, argument,
    List.not_mem_nil, false_implies, implies_true, true_and, and_true, and_iff_left_iff_imp]
  exact fun _ => free

theorem Quiet.not_holds_stack {stack : Nat} (h : t.Quiet stack) (inside : InWindow addr size)
    (fits : stack ≤ windowSize) : t.stack.holds addr size = false := by
  have above := UInt64.le_iff_toNat_le.mp inside.above
  have bound := h.stack
  rw [show stackBase.toNat = 12884901888 from rfl] at bound
  rw [show argumentBase.toNat = 17179869184 from rfl] at above
  rw [windowSize] at fits
  exact Region.not_holds_of_past (by omega) inside.nonempty

/-- A longer stack does: the program finds it at the place of the argument. -/
theorem LaidOut.resolve_argumentBase {c : Container} {stack : Nat} (h : t.LaidOut c stack)
    (long : windowSize < stack) (small : stack < UInt64.size) :
    ∃ bytes, t.resolve argumentBase 1 .read = .ok bytes := by
  have length : t.stack.length.toNat = stack := by
    rw [Region.length, h.stack.size]
    exact UInt64.toNat_ofNat_of_lt' small
  have start : stackBase ≤ argumentBase := by decide
  have offset : (argumentBase - stackBase).toNat = windowSize := by
    rw [UInt64.toNat_sub_of_le _ _ start]
    rfl
  have reaches : argumentBase - stackBase ≤ t.stack.length := by
    rw [UInt64.le_iff_toNat_le, offset, length]
    omega
  have holds : t.stack.holds argumentBase 1 = true := by
    simp only [Region.holds, h.stack.start, Bool.and_eq_true, decide_eq_true_eq]
    refine ⟨⟨start, reaches⟩, ?_⟩
    rw [UInt64.le_iff_toNat_le, UInt64.toNat_sub_of_le _ _ reaches, offset, length,
      UInt64.toNat_one]
    omega
  have first : t.toList.findIdx? (·.holds argumentBase 1) = some 0 := by
    rw [toList, List.findIdx?_cons, holds, if_pos rfl]
  have room : ¬ roomAfter argumentBase < 1 := by decide
  have granted : t.stack.permission.allows .read = true := by
    rw [h.stack.permission]
    decide
  have located : t.locate argumentBase 1 .read = .ok ⟨0, (argumentBase - t.stack.start).toNat⟩ := by
    have found : t.get? 0 = some t.stack := rfl
    rw [locate, if_neg room, first]
    simp only [found, Option.getD_some, granted, if_true]
  simp [resolve, located, bind, Except.bind, pure, Except.pure]

theorem error_of_resolve_blank (nonempty : size ≠ 0) :
    ∃ e, blank.resolve addr size access = .error e := by
  by_cases room : roomAfter addr < size
  · refine ⟨.overflow addr size, resolve_eq_error_iff.mpr ?_⟩
    rw [locate, if_pos room]
  · refine ⟨.unmapped addr size, (resolve_eq_unmapped_iff room).mpr fun r member => ?_⟩
    simp only [blank, toList, List.nil_append, List.mem_cons, List.not_mem_nil, or_false,
      or_self] at member
    subst member
    exact Region.not_holds_of_empty (Bytes.size_zeros 0) nonempty

end RegionTable

end BytecodeVm
