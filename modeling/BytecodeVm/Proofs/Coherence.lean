import BytecodeVm.Proofs.ByteStrings
import BytecodeVm.Proofs.Translation
import Mathlib

/-! Memory as bytes at addresses. Where regions do not overlap, each address has one byte. A read
gives the bytes of its range, a write puts its bytes there and leaves all others, so that a load
after a store sees the bytes of the store and, beside them, what was there before. -/
namespace BytecodeVm

def LittleEndian.digit (n k : Nat) : UInt8 := (n / 256 ^ k).toUInt8

theorem LittleEndian.getElem?_ofNat {count k : Nat} (n : Nat) (inside : k < count) :
    (ofNat count n)[k]? = some (digit n k) := by
  induction count generalizing n k with
  | zero => omega
  | succ count ih =>
    cases k with
    | zero => simp [ofNat, digit]
    | succ k =>
      rw [ofNat, List.getElem?_cons_succ, ih (n / 256) (by omega), digit, digit,
        Nat.div_div_eq_div_mul, ← Nat.pow_succ']

namespace Bytes

theorem toList_overwrite (b new : Bytes) (offset : Nat) :
    toList (b.overwrite offset new) =
      (toList b).take offset ++ toList new ++ (toList b).drop (offset + new.size) := by
  rw [overwrite, ByteArray.copySlice_eq_append]
  simp [toList]

theorem getElem?_overwrite {b new : Bytes} {offset : Nat} (inside : offset + new.size ≤ b.size)
    (k : Nat) :
    (toList (b.overwrite offset new))[k]? =
      if offset ≤ k ∧ k < offset + new.size then (toList new)[k - offset]?
      else (toList b)[k]? := by
  have first : ((toList b).take offset).length = offset := by
    rw [List.length_take, length_toList]
    omega
  have second : ((toList b).take offset ++ toList new).length = offset + new.size := by
    rw [List.length_append, first, length_toList]
  rw [toList_overwrite]
  by_cases before : k < offset
  · rw [if_neg (by omega), List.getElem?_append_left (by omega),
      List.getElem?_append_left (by omega), List.getElem?_take_of_lt before]
  · by_cases within : k < offset + new.size
    · rw [if_pos ⟨by omega, within⟩, List.getElem?_append_left (by omega),
        List.getElem?_append_right (by omega), first]
    · rw [if_neg (by omega), List.getElem?_append_right (by omega), second, List.getElem?_drop]
      congr 1
      omega

theorem getElem?_slice (b : Bytes) {offset length k : Nat} (inside : k < length) :
    (toList (b.slice offset length))[k]? = (toList b)[offset + k]? := by
  rw [toList_slice, List.getElem?_take_of_lt inside, List.getElem?_drop]

end Bytes

def Region.Apart (r q : Region) : Prop := ∀ a, ¬ (r.Covers a 1 ∧ q.Covers a 1)

theorem Region.Apart.symm {r q : Region} (h : r.Apart q) : q.Apart r :=
  fun a both => h a ⟨both.2, both.1⟩

instance : Std.Symm Region.Apart := ⟨fun _ _ => Region.Apart.symm⟩

theorem Region.apart_of_le {r q : Region} (below : r.start.toNat + r.bytes.size ≤ q.start.toNat) :
    r.Apart q := by
  rintro a ⟨⟨-, high⟩, ⟨low, -⟩⟩
  omega

theorem Region.Agrees.covers {fixed : Permission → Bool} {r r' : Region} (h : r.Agrees fixed r')
    (a n : Nat) : r.Covers a n ↔ r'.Covers a n := by
  rw [Covers, Covers, h.start, h.size]

section

variable {α : Type} {f : α → α} {l l' : List α}

theorem modify_append_left {i : Nat} (inside : i < l.length) :
    (l ++ l').modify i f = l.modify i f ++ l' := by
  induction l generalizing i with
  | nil => simp at inside
  | cons a l ih =>
    cases i with
    | zero => rfl
    | succ i =>
      rw [List.cons_append, List.modify_succ_cons, List.modify_succ_cons,
        ih (Nat.lt_of_succ_lt_succ inside), List.cons_append]

theorem modify_append_length (a : α) : (l ++ [a]).modify l.length f = l ++ [f a] := by
  induction l with
  | nil => rfl
  | cons b l ih =>
    rw [List.cons_append, List.length_cons, List.modify_succ_cons, ih, List.cons_append]

end

namespace RegionTable

variable {t t' : RegionTable} {r : Region} {a : Nat} {addr size : UInt64} {bytes : Bytes}

def Disjoint (t : RegionTable) : Prop := t.toList.Pairwise Region.Apart

def byte? (t : RegionTable) (a : Nat) : Option UInt8 :=
  (t.first? a 1).bind fun r => (Bytes.toList r.bytes)[a - r.start.toNat]?

/-- Without regions of the host's, it is enough that each region ends before the next begins. -/
theorem disjoint_of_ascending (own : t.extensions = [])
    (data : t.data.start.toNat + t.data.bytes.size ≤ t.rodata.start.toNat)
    (rodata : t.rodata.start.toNat + t.rodata.bytes.size ≤ t.stack.start.toNat)
    (stack : t.stack.start.toNat + t.stack.bytes.size ≤ t.argument.start.toNat) : t.Disjoint := by
  simp only [Disjoint, toList, own, List.nil_append, List.pairwise_cons, List.forall_mem_cons,
    List.not_mem_nil, false_implies, implies_true, and_true, List.Pairwise.nil]
  refine ⟨⟨(Region.apart_of_le ?_).symm, (Region.apart_of_le ?_).symm, Region.apart_of_le ?_⟩,
    ⟨Region.apart_of_le ?_, Region.apart_of_le ?_⟩, Region.apart_of_le ?_⟩
  all_goals omega

theorem toList_modifyBytes (t : RegionTable) (i : Nat) (f : Bytes → Bytes) :
    (t.modifyBytes i f).toList = t.toList.modify i fun r => { r with bytes := f r.bytes } := by
  match i with
  | 0 | 1 | 2 => rfl
  | i + 3 =>
    simp only [modifyBytes, toList, List.modify_succ_cons]
    split
    · rename_i inside
      rw [modify_append_left inside]
    · split
      · rename_i last
        rw [last, modify_append_length]
      · rename_i inside last
        rw [List.modify_eq_self]
        rw [List.length_append, List.length_singleton]
        omega

theorem Agrees.disjoint {fixed : Permission → Bool} (h : t.Agrees fixed t') (apart : t.Disjoint) :
    t'.Disjoint := by
  rw [Disjoint, List.pairwise_iff_getElem] at apart ⊢
  have count := h.toList.length_eq
  intro i j inside inside' before a both
  have left := h.toList.get (by omega) inside
  have right := h.toList.get (by omega) inside'
  exact apart i j (by omega) (by omega) before a
    ⟨(left.covers a 1).mpr both.1, (right.covers a 1).mpr both.2⟩

theorem Disjoint.first?_eq (apart : t.Disjoint) (listed : r ∈ t.toList) (covers : r.Covers a 1) :
    t.first? a 1 = some r := by
  cases found : t.first? a 1 with
  | none =>
    rw [first?, List.find?_eq_none] at found
    exact absurd covers (by simpa using found r listed)
  | some q =>
    have same : q = r := by
      by_contra different
      have listed' := List.mem_of_find?_eq_some found
      exact List.Pairwise.forall apart listed' listed different a ⟨covers_of_first? found, covers⟩
    rw [same]

theorem Disjoint.byte?_eq (apart : t.Disjoint) (listed : r ∈ t.toList) (covers : r.Covers a 1) :
    t.byte? a = (Bytes.toList r.bytes)[a - r.start.toNat]? := by
  rw [byte?, apart.first?_eq listed covers, Option.bind_some]

theorem Disjoint.getElem?_read (apart : t.Disjoint) (h : t.read addr size = .ok bytes) {k : Nat}
    (inside : k < size.toNat) : (Bytes.toList bytes)[k]? = t.byte? (addr.toNat + k) := by
  rw [read, resolve_eq] at h
  split at h
  · cases h
  · split at h
    · cases h
    · rename_i r first
      split at h
      · cases h
        have holds : r.holds addr size = true := by simpa using List.find?_some first
        obtain ⟨start, stop⟩ := Region.covers_of_holds holds
        rw [apart.byte?_eq (List.mem_of_find?_eq_some first) ⟨by omega, by omega⟩,
          Bytes.getElem?_slice _ inside,
          UInt64.toNat_sub_of_le _ _ (UInt64.le_iff_toNat_le.mpr start)]
        congr 1
        omega
      · cases h

theorem exists_place_of_write (h : t.write addr bytes = .ok t') :
    ∃ place r, t.Locates addr (UInt64.ofNat bytes.size) .write place r ∧
      t' = t.put place bytes := by
  cases located : t.locate addr (UInt64.ofNat bytes.size) .write with
  | error e => simp [write, located, bind, Except.bind] at h
  | ok place =>
    simp only [write, located, bind, Except.bind, pure, Except.pure, Except.ok.injEq] at h
    obtain ⟨r, locates⟩ := locates_of_locate located
    exact ⟨place, r, locates, h.symm⟩

theorem getElem?_put_self {place : Place} (region : t.toList[place.index]? = some r) :
    (t.put place bytes).toList[place.index]? =
      some { r with bytes := r.bytes.overwrite place.offset bytes } := by
  rw [put, toList_modifyBytes, List.getElem?_modify_eq, region, Option.map_eq_map, Option.map_some]

theorem getElem?_put_of_ne {place : Place} {j : Nat} (other : place.index ≠ j) :
    (t.put place bytes).toList[j]? = t.toList[j]? := by
  rw [put, toList_modifyBytes, List.getElem?_modify_ne _ _ other]

theorem Agrees.first?_eq_none {fixed : Permission → Bool} {n : Nat} (h : t.Agrees fixed t')
    (free : t.first? a n = none) : t'.first? a n = none := by
  rw [first?, List.find?_eq_none] at free ⊢
  intro q' listed'
  obtain ⟨j, here'⟩ := List.getElem?_of_mem listed'
  rcases forall₂_getElem? h.toList j with ⟨-, gone⟩ | ⟨q, q'', here, there, agrees⟩
  · cases here'.symm.trans gone
  · cases here'.symm.trans there
    have outside : ¬ q.Covers a n := by simpa using free q (List.mem_of_getElem? here)
    rw [decide_eq_true_eq, ← agrees.covers]
    exact outside

theorem Disjoint.byte?_write (apart : t.Disjoint) (h : t.write addr bytes = .ok t')
    (short : bytes.size < UInt64.size) (a : Nat) :
    t'.byte? a = if addr.toNat ≤ a ∧ a < addr.toNat + bytes.size then
      (Bytes.toList bytes)[a - addr.toNat]? else t.byte? a := by
  have agrees := agrees_of_write h short
  have apart' := agrees.disjoint apart
  obtain ⟨place, r, locates, rfl⟩ := exists_place_of_write h
  have range := Region.covers_of_holds locates.holds
  rw [UInt64.toNat_ofNat_of_lt' short] at range
  obtain ⟨start, stop⟩ := range
  have offset : place.offset = addr.toNat - r.start.toNat := by
    rw [locates.offset, UInt64.toNat_sub_of_le _ _ (UInt64.le_iff_toNat_le.mpr start)]
  have inside : place.offset + bytes.size ≤ r.bytes.size := by omega
  by_cases mine : r.Covers a 1
  · -- the address belongs to the region that is written
    obtain ⟨low, high⟩ := mine
    rw [apart'.byte?_eq (List.mem_of_getElem? (getElem?_put_self locates.region)) ⟨low, ?_⟩,
      apart.byte?_eq (List.mem_of_getElem? locates.region) ⟨low, high⟩]
    · dsimp only
      rw [Bytes.getElem?_overwrite inside,
        show a - r.start.toNat - place.offset = a - addr.toNat by omega]
      refine if_congr ?_ rfl rfl
      omega
    · dsimp only
      rwa [Bytes.size_overwrite_of_le inside]
  · have outside : ¬ (addr.toNat ≤ a ∧ a < addr.toNat + bytes.size) :=
      fun within => mine ⟨by omega, by omega⟩
    rw [if_neg outside]
    cases found : t.first? a 1 with
    | none => rw [byte?, byte?, found, agrees.first?_eq_none found]
    | some q =>
      have covers := covers_of_first? found
      have listed := List.mem_of_find?_eq_some found
      obtain ⟨j, here⟩ := List.getElem?_of_mem listed
      have other : place.index ≠ j := by
        rintro rfl
        cases locates.region.symm.trans here
        exact mine covers
      have listed' : q ∈ (t.put place bytes).toList :=
        List.mem_of_getElem? ((getElem?_put_of_ne other).trans here)
      rw [apart'.byte?_eq listed' covers, apart.byte?_eq listed covers]

theorem Disjoint.byte?_store (apart : t.Disjoint) {n : AccessSize} {x : UInt64}
    (h : t.store addr n.bytes x = .ok t') (a : Nat) :
    t'.byte? a = if addr.toNat ≤ a ∧ a < addr.toNat + n.bytes then
      some (LittleEndian.digit x.toNat (a - addr.toNat)) else t.byte? a := by
  have length : (Bytes.ofList (LittleEndian.ofNat n.bytes x.toNat)).size = n.bytes := by
    rw [Bytes.size_ofList, LittleEndian.length_ofNat]
  have short : n.bytes < UInt64.size := by cases n <;> decide
  rw [apart.byte?_write h (by rwa [length]), length]
  split
  · rename_i within
    rw [Bytes.toList_ofList, LittleEndian.getElem?_ofNat _ (by omega)]
  · rfl

theorem isOk_read (t : RegionTable) (addr size : UInt64) :
    (t.read addr size).isOk = (t.locate addr size .read).isOk := by
  rw [read, resolve]
  cases t.locate addr size .read <;> rfl

theorem isOk_load (t : RegionTable) (addr : UInt64) (n : Nat) :
    (t.load addr n).isOk = (t.read addr (UInt64.ofNat n)).isOk := by
  rw [load]
  cases t.read addr (UInt64.ofNat n) <;> rfl

theorem Disjoint.bytes_of_load (apart : t.Disjoint) {m : AccessSize} {v : UInt64}
    (h : t.load addr m.bytes = .ok v) :
    ∃ bytes, v.toNat = LittleEndian.toNat bytes ∧ bytes.length = m.bytes ∧
      ∀ k < m.bytes, bytes[k]? = t.byte? (addr.toNat + k) := by
  have width : (UInt64.ofNat m.bytes).toNat = m.bytes := by cases m <;> rfl
  cases got : t.read addr (UInt64.ofNat m.bytes) with
  | error e => simp [load, got, bind, Except.bind] at h
  | ok bytes =>
    simp only [load, got, bind, Except.bind, pure, Except.pure, Except.ok.injEq] at h
    have length : (Bytes.toList bytes).length = m.bytes := by
      rw [Bytes.length_toList, size_of_read got, width]
    have small : LittleEndian.toNat (Bytes.toList bytes) < UInt64.size := by
      calc LittleEndian.toNat (Bytes.toList bytes)
        _ < 256 ^ m.bytes := length ▸ LittleEndian.toNat_lt _
        _ ≤ UInt64.size := by cases m <;> decide
    refine ⟨Bytes.toList bytes, ?_, length, fun k inside => ?_⟩
    · rw [← h, UInt64.toNat_ofNat_of_lt' small]
    · exact apart.getElem?_read got (by rwa [width])

end RegionTable

namespace Instance

theorem disjoint_of_setup {i j : Instance} {c : Container} (genuine : c.Genuine)
    (loaded : i.image = some c)
    (data : c.header.dataLen.toNat + c.header.bssLen.toNat ≤ 2 ^ 32)
    (stack : i.stack.size ≤ 2 ^ 32) (done : i.setup = .ok j) (context : Bytes) :
    (j.mapArgument context).openArgument.memory.Disjoint := by
  obtain ⟨image, locals, loaded', rfl⟩ := setup_eq_ok done
  obtain rfl : c = image := Option.some.inj (loaded.symm.trans loaded')
  rw [memory_of_live (body_openArgument (body_mapArgument rfl context))]
  have rounded := c.header.toNat_mutableLen
  have short := c.header.rodataLen.toNat_lt
  refine RegionTable.disjoint_of_ascending rfl ?_ ?_ ?_
  · change 4294967296 + (initialData c).size ≤ 8589934592
    rw [genuine.size_initialData]
    omega
  · change 8589934592 + c.rodata.size ≤ 12884901888
    rw [genuine.rodata]
    omega
  · change 12884901888 + i.stack.size ≤ 17179869184
    omega

end Instance

theorem Cpu.eq_of_done_of_store {p : Program} {s u : Cpu} {i : Instruction} {size : AccessSize}
    {outcome : Outcome} (met : p.code[s.pc]? = some i)
    (kind : i.kind = .storeImmediate size ∨ i.kind = .storeRegister size)
    (ends : s.step p = .done outcome u) : u = s := by
  rcases stops_of_step ends with ⟨past, -, -⟩ | ⟨i', met', stops⟩
  · cases met.symm.trans past
  · obtain rfl : i = i' := Option.some.inj (met.symm.trans met')
    cases stops with
    | callFailed other | callPanicked other | noSlot other =>
      rcases kind with kind | kind <;> cases kind.symm.trans other
    | _ => rfl

/-- Memory is coherent. The regions of an instance that is set up do not overlap, whatever the
argument, if data and stack fit their windows. In a table without overlaps, a load after a store
succeeds where its range was readable. It gives the bytes of the number that was stored at their
addresses, and at all others what was there before. A store that fails changes nothing. -/
theorem memory_coherence :
    (∀ (i j : Instance) (c : Container) (image context : Bytes), Container.parse image = .ok c →
      i.image = some c → c.header.dataLen.toNat + c.header.bssLen.toNat ≤ 2 ^ 32 →
      i.stack.size ≤ 2 ^ 32 → i.setup = .ok j →
      (j.mapArgument context).openArgument.memory.Disjoint) ∧
    (∀ (t t' : RegionTable) (addr x : UInt64) (n : AccessSize), t.Disjoint →
      t.store addr n.bytes x = .ok t' → ∀ (addr' : UInt64) (m : AccessSize),
        (t'.load addr' m.bytes).isOk = (t.read addr' (UInt64.ofNat m.bytes)).isOk ∧
        ∀ v, t'.load addr' m.bytes = .ok v →
          ∃ bytes, v.toNat = LittleEndian.toNat bytes ∧ bytes.length = m.bytes ∧
            ∀ k < m.bytes, let a := addr'.toNat + k
              bytes[k]? = if addr.toNat ≤ a ∧ a < addr.toNat + n.bytes then
                some (LittleEndian.digit x.toNat (a - addr.toNat)) else t.byte? a) ∧
    ∀ (p : Program) (s u : Cpu) (i : Instruction) (n : AccessSize) (outcome : Outcome),
      p.code[s.pc]? = some i → i.kind = .storeImmediate n ∨ i.kind = .storeRegister n →
      s.step p = .done outcome u → u = s ∧ s.run p = (outcome, s) := by
  refine ⟨?_, ?_, ?_⟩
  · intro i j c image context parsed loaded data stack done
    exact Instance.disjoint_of_setup (Container.genuine_of_parse parsed) loaded data stack done _
  · intro t t' addr x n apart stored addr' m
    have agrees := RegionTable.agrees_of_store stored
    refine ⟨?_, fun v loaded => ?_⟩
    · rw [RegionTable.isOk_load, RegionTable.isOk_read, RegionTable.isOk_read, agrees.locate]
    · obtain ⟨bytes, value, length, read⟩ := (agrees.disjoint apart).bytes_of_load loaded
      refine ⟨bytes, value, length, fun k inside => ?_⟩
      rw [read k inside, apart.byte?_store stored]
  · intro p s u i n outcome met kind ends
    obtain rfl := Cpu.eq_of_done_of_store met kind ends
    exact ⟨rfl, Cpu.run_of_done ends⟩

theorem exists_of_isOk {ε α : Type} {e : Except ε α} (h : e.isOk = true) : ∃ a, e = .ok a := by
  cases e with
  | error _ => cases h
  | ok a => exact ⟨a, rfl⟩

def fourRegions : RegionTable :=
  { RegionTable.fresh (Bytes.zeros 512) (Instance.initialData windowStores) windowStores.rodata with
    argument := ⟨"arg", RegionTable.argumentBase, Bytes.zeros 4, .readWrite⟩ }

theorem memory_coherence_straddling :
    let s := overlapping.boot ⟨.inMemory 16, .silent, 0⟩ 7
    fourRegions.Disjoint ∧
      (∃ t v bytes, fourRegions.store 0x300000004 2 0x1122 = .ok t ∧
        t.load 0x300000003 4 = .ok v ∧ v.toNat = LittleEndian.toNat bytes ∧
        bytes[0]? = fourRegions.byte? 0x300000003 ∧ bytes[1]? = some 0x22 ∧
        bytes[2]? = some 0x11) ∧
      s.run ⟨#[⟨0x7a, 1, 0, 0, 0⟩], fun _ => none⟩ =
        (.failed 0 (.memory (.unmapped 7 8)), s) := by
  intro s
  obtain ⟨layout, coherent, failed⟩ := memory_coherence
  have apart : fourRegions.Disjoint :=
    layout (.create (some windowStores) none .standard) _ windowStores windowStores.image
      (Bytes.zeros 4) rfl rfl (by decide) (by decide +kernel) rfl
  refine ⟨apart, ?_, ?_⟩
  · obtain ⟨t, stored⟩ : ∃ t, fourRegions.store 0x300000004 2 0x1122 = .ok t :=
      exists_of_isOk (by decide +kernel)
    obtain ⟨same, bytewise⟩ := coherent _ t 0x300000004 0x1122 .half apart stored 0x300000003 .word
    obtain ⟨v, loaded⟩ := exists_of_isOk (same.trans (by decide +kernel))
    obtain ⟨bytes, value, -, byte⟩ := bytewise v loaded
    exact ⟨t, v, bytes, stored, loaded, value, byte 0 (by decide), byte 1 (by decide),
      byte 2 (by decide)⟩
  · have named : effectiveAddress (s.registers.get .first) 0 = some 7 :=
      effectiveAddress_eq_some_iff.mpr (by decide)
    have refused : s.world.memory.store 7 AccessSize.double.bytes 0 = .error (.unmapped 7 8) :=
      RegionTable.store_eq_error_iff.mpr
        (show overlapping.memory.resolve 7 8 .write = _ by decide +kernel)
    have ends := Cpu.step_of_store (p := ⟨#[⟨0x7a, 1, 0, 0, 0⟩], fun _ => none⟩) (s := s)
      (i := ⟨0x7a, 1, 0, 0, 0⟩) (c := .first) rfl (.inl ⟨rfl, rfl⟩) rfl
    rw [named] at ends
    dsimp only [Cpu.withOperand] at ends
    rw [show Instruction.operand ⟨0x7a, 1, 0, 0, 0⟩ = 0 from rfl, refused] at ends
    exact (failed _ s s ⟨0x7a, 1, 0, 0, 0⟩ .double _ rfl (.inl rfl) ends).2

end BytecodeVm
