import BytecodeVm.Region
import BytecodeVm.Proofs.Coherence
import Mathlib

/-! Reading strings from memory. The bytes of a string are read one by one, each from the first
region that holds it, so a string may run through several regions. What is read is described here
by addresses as integers: where the string stops, or which byte stops the reading. The last address
is out of reach, so no reading runs past it. -/
namespace BytecodeVm

namespace RegionTable

variable {t : RegionTable} {a : Nat} {b c : UInt8} {addr : UInt64} {e e' : MemoryError}
  {x y : Except MemoryError Bytes}

/-- Reading the byte at address `a` by itself gives `x`. -/
def Yields (t : RegionTable) (a : Nat) (x : Except MemoryError Bytes) : Prop :=
  ∃ addr : UInt64, addr.toNat = a ∧ t.resolve addr 1 .read = x

def Shows (t : RegionTable) (a : Nat) (b : UInt8) : Prop := t.Yields a (.ok (Bytes.ofList [b]))

def Refuses (t : RegionTable) (a : Nat) (e : MemoryError) : Prop := t.Yields a (.error e)

theorem yields_toNat_iff : t.Yields addr.toNat x ↔ t.resolve addr 1 .read = x := by
  constructor
  · rintro ⟨addr', same, read⟩
    rwa [UInt64.toNat_inj.mp same] at read
  · exact fun read => ⟨addr, rfl, read⟩

theorem Yields.unique (h : t.Yields a x) (h' : t.Yields a y) : x = y := by
  obtain ⟨addr, rfl, read⟩ := h
  exact read.symm.trans (yields_toNat_iff.mp h')

theorem Shows.unique (h : t.Shows a b) (h' : t.Shows a c) : b = c := by
  simpa using congrArg Bytes.toList (Except.ok.inj (Yields.unique h h'))

theorem Shows.not_refuses (h : t.Shows a b) : ¬ t.Refuses a e :=
  fun refused => nomatch Yields.unique h refused

theorem Refuses.unique (h : t.Refuses a e) (h' : t.Refuses a e') : e = e' :=
  Except.error.inj (Yields.unique h h')

theorem shows_or_refuses (t : RegionTable) (addr : UInt64) :
    (∃ b, t.Shows addr.toNat b) ∨ ∃ e, t.Refuses addr.toNat e := by
  cases read : t.resolve addr 1 .read with
  | error e => exact .inr ⟨e, addr, rfl, read⟩
  | ok bytes =>
    have length : (Bytes.toList bytes).length = 1 := by
      rw [Bytes.length_toList, size_of_read read]
      rfl
    obtain ⟨b, single⟩ := List.length_eq_one_iff.mp length
    have same : bytes = Bytes.ofList [b] :=
      Bytes.ext_toList (single.trans (Bytes.toList_ofList [b]).symm)
    exact .inl ⟨b, addr, rfl, same ▸ read⟩

theorem load_of_shows (h : t.Shows addr.toNat b) : t.load addr 1 = .ok b.toUInt64 := by
  have read : t.read addr (UInt64.ofNat 1) = .ok (Bytes.ofList [b]) := yields_toNat_iff.mp h
  simp only [load, read, bind, Except.bind, pure, Except.pure, Bytes.toList_ofList,
    LittleEndian.toNat, Nat.mul_zero, Nat.add_zero, UInt64.ofNat_uInt8ToNat]

theorem load_of_refuses (h : t.Refuses addr.toNat e) : t.load addr 1 = .error e := by
  have read : t.read addr (UInt64.ofNat 1) = .error e := yields_toNat_iff.mp h
  simp only [load, read, bind, Except.bind]

theorem resolve_last (t : RegionTable) (access : Permission) :
    t.resolve (UInt64.ofNat (2 ^ 64 - 1)) 1 access =
      .error (.overflow (UInt64.ofNat (2 ^ 64 - 1)) 1) := by
  rw [resolve_eq, if_pos (by decide)]

theorem Shows.lt (h : t.Shows a b) : a < 2 ^ 64 - 1 := by
  obtain ⟨addr, rfl, read⟩ := h
  by_contra beyond
  have bound := addr.toNat_lt
  have last : addr = UInt64.ofNat (2 ^ 64 - 1) := by
    rw [← UInt64.toNat_inj, UInt64.toNat_ofNat']
    omega
  rw [last, resolve_last] at read
  cases read

theorem Shows.exists_region (h : t.Shows a b) :
    ∃ r ∈ t.toList, r.Covers a 1 ∧ (Bytes.toList r.bytes)[a - r.start.toNat]? = some b := by
  obtain ⟨addr, rfl, read⟩ := h
  rw [resolve_eq] at read
  split at read
  · cases read
  · split at read
    · cases read
    · rename_i r first
      split at read
      · have holds : r.holds addr 1 = true := by simpa using List.find?_some first
        have covers := Region.covers_of_holds holds
        have bytes := congrArg (fun b => (Bytes.toList b)[0]?) (Except.ok.inj read)
        rw [Bytes.getElem?_slice _ (by decide), Nat.add_zero,
          UInt64.toNat_sub_of_le _ _ (UInt64.le_iff_toNat_le.mpr covers.1)] at bytes
        refine ⟨r, List.mem_of_find?_eq_some first, covers, bytes.trans ?_⟩
        rw [Bytes.toList_ofList, List.getElem?_cons_zero]
      · cases read

end RegionTable

namespace CString

open RegionTable

variable {t : RegionTable} {addr : UInt64} {a max left i : Nat} {s : List UInt8} {e : MemoryError}

/-- The bytes `s` are the string at address `a`, cut after `max` bytes: each of them can be read in
its place, none is zero, and behind them stands a zero byte unless the string was cut. -/
structure Spells (t : RegionTable) (a max : Nat) (s : List UInt8) : Prop where
  length : s.length ≤ max
  shown : ∀ j b, s[j]? = some b → t.Shows (a + j) b
  nonzero : 0 ∉ s
  ending : s.length = max ∨ t.Shows (a + s.length) 0

/-- Of the `max` bytes at address `a`, one cannot be read, for the reason `e`. All before it can,
and none of them is zero. -/
def Breaks (t : RegionTable) (a max : Nat) (e : MemoryError) : Prop :=
  ∃ j < max, (∀ k < j, ∃ b, b ≠ 0 ∧ t.Shows (a + k) b) ∧ t.Refuses (a + j) e

theorem spells_zero_iff : Spells t a 0 s ↔ s = [] := by
  constructor
  · exact fun h => List.length_eq_zero_iff.mp (Nat.le_zero.mp h.length)
  · rintro rfl
    exact ⟨Nat.le_refl 0, by simp, by simp, .inl rfl⟩

theorem spells_succ_iff :
    Spells t a (max + 1) s ↔ s = [] ∧ t.Shows a 0 ∨
      ∃ b rest, s = b :: rest ∧ b ≠ 0 ∧ t.Shows a b ∧ Spells t (a + 1) max rest := by
  constructor
  · intro h
    cases s with
    | nil => exact .inl ⟨rfl, h.ending.resolve_left (by simp)⟩
    | cons b rest =>
      obtain ⟨first, others⟩ := not_or.mp (List.mem_cons.not.mp h.nonzero)
      refine .inr ⟨b, rest, rfl, Ne.symm first, h.shown 0 b rfl, ?_, fun j c found => ?_, others,
        ?_⟩
      · have := h.length
        rw [List.length_cons] at this
        omega
      · have later := h.shown (j + 1) c found
        rwa [← Nat.add_assoc, Nat.add_right_comm] at later
      · have ending := h.ending
        rw [List.length_cons] at ending
        rwa [Nat.add_right_cancel_iff, ← Nat.add_assoc, Nat.add_right_comm] at ending
  · rintro (⟨rfl, zero⟩ | ⟨b, rest, rfl, nonzero, first, later⟩)
    · exact ⟨Nat.zero_le _, by simp, by simp, .inr zero⟩
    · refine ⟨Nat.succ_le_succ later.length, fun j c found => ?_, ?_, ?_⟩
      · cases j with
        | zero =>
          obtain rfl : b = c := by simpa using found
          exact first
        | succ j =>
          rw [← Nat.add_assoc, Nat.add_right_comm]
          exact later.shown j c found
      · rw [List.mem_cons, not_or]
        exact ⟨Ne.symm nonzero, later.nonzero⟩
      · rw [List.length_cons, Nat.add_right_cancel_iff, ← Nat.add_assoc, Nat.add_right_comm]
        exact later.ending

theorem breaks_succ_iff :
    Breaks t a (max + 1) e ↔
      t.Refuses a e ∨ (∃ b, b ≠ 0 ∧ t.Shows a b) ∧ Breaks t (a + 1) max e := by
  constructor
  · rintro ⟨j, inside, before, refused⟩
    cases j with
    | zero => exact .inl refused
    | succ j =>
      refine .inr ⟨before 0 (Nat.succ_pos j), j, Nat.lt_of_succ_lt_succ inside,
        fun k earlier => ?_, ?_⟩
      · have shown := before (k + 1) (Nat.succ_lt_succ earlier)
        rwa [← Nat.add_assoc, Nat.add_right_comm] at shown
      · rwa [← Nat.add_assoc, Nat.add_right_comm] at refused
  · rintro (refused | ⟨first, j, inside, before, refused⟩)
    · exact ⟨0, Nat.succ_pos _, fun k impossible => absurd impossible (Nat.not_lt_zero k), refused⟩
    · refine ⟨j + 1, Nat.succ_lt_succ inside, fun k earlier => ?_, ?_⟩
      · cases k with
        | zero => exact first
        | succ k =>
          rw [← Nat.add_assoc, Nat.add_right_comm]
          exact before k (Nat.lt_of_succ_lt_succ earlier)
      · rwa [← Nat.add_assoc, Nat.add_right_comm]

/-- One step of reading: the next byte is refused, or ends the string, or is its next one. A byte
that was read is not the last of the address space, so the address behind it does not wrap. -/
theorem readFrom_succ_cases (inside : addr.toNat + i < 2 ^ 64) (left : Nat) :
    (∃ e, t.Refuses (addr.toNat + i) e ∧ readFrom t addr (left + 1) i = .error (.memory e)) ∨
      t.Shows (addr.toNat + i) 0 ∧ readFrom t addr (left + 1) i = .ok [] ∨
      ∃ b, b ≠ 0 ∧ t.Shows (addr.toNat + i) b ∧ addr.toNat + (i + 1) < 2 ^ 64 ∧
        readFrom t addr (left + 1) i = (readFrom t addr left (i + 1)).map (b :: ·) := by
  have here : (addr + UInt64.ofNat i).toNat = addr.toNat + i := by
    rw [UInt64.toNat_add, UInt64.toNat_ofNat']
    omega
  have ahead : ¬ addr + UInt64.ofNat i < addr := by
    rw [UInt64.lt_iff_toNat_lt, here]
    omega
  rw [readFrom, if_neg ahead, ← here]
  rcases t.shows_or_refuses (addr + UInt64.ofNat i) with ⟨b, shown⟩ | ⟨e, refused⟩
  · rw [load_of_shows shown]
    have before := shown.lt
    by_cases zero : b = 0
    · subst zero
      exact .inr (.inl ⟨shown, rfl⟩)
    · have nonzero : b.toUInt64 ≠ 0 := by
        rwa [ne_eq, ← UInt64.toNat_inj, UInt8.toNat_toUInt64, UInt64.toNat_zero, ← UInt8.toNat_zero,
          UInt8.toNat_inj]
      refine .inr (.inr ⟨b, zero, shown, by omega, ?_⟩)
      dsimp only
      rw [if_neg nonzero, UInt8.toUInt8_toUInt64]
  · rw [load_of_refuses refused]
    exact .inl ⟨e, refused, rfl⟩

theorem readFrom_eq_ok_iff (inside : addr.toNat + i < 2 ^ 64) :
    readFrom t addr left i = .ok s ↔ Spells t (addr.toNat + i) left s := by
  induction left generalizing i s with
  | zero =>
    rw [spells_zero_iff, readFrom, Except.ok.injEq]
    exact eq_comm
  | succ left ih =>
    rw [spells_succ_iff]
    rcases readFrom_succ_cases (t := t) inside left with
      ⟨e, refused, answer⟩ | ⟨zero, answer⟩ | ⟨b, nonzero, shown, next, answer⟩
    · rw [answer]
      refine ⟨nofun, ?_⟩
      rintro (⟨-, shown⟩ | ⟨b, rest, -, -, shown, -⟩) <;> exact absurd refused shown.not_refuses
    · rw [answer, Except.ok.injEq]
      refine ⟨fun same => .inl ⟨same.symm, zero⟩, ?_⟩
      rintro (⟨same, -⟩ | ⟨b, rest, -, nonzero, shown, -⟩)
      · exact same.symm
      · exact absurd (shown.unique zero) nonzero
    · rw [answer]
      constructor
      · intro done
        cases rest : readFrom t addr left (i + 1) with
        | error e => simp [rest, Except.map] at done
        | ok tail =>
          simp only [rest, Except.map, Except.ok.injEq] at done
          exact .inr ⟨b, tail, done.symm, nonzero, shown, (ih next).mp rest⟩
      · rintro (⟨-, zero⟩ | ⟨c, tail, rfl, -, shown', later⟩)
        · exact absurd (shown.unique zero) nonzero
        · rw [shown.unique shown', (ih next).mpr later]
          rfl

theorem readFrom_eq_error_iff (inside : addr.toNat + i < 2 ^ 64) {error : StringError} :
    readFrom t addr left i = .error error ↔
      ∃ e, error = .memory e ∧ Breaks t (addr.toNat + i) left e := by
  induction left generalizing i with
  | zero =>
    rw [readFrom]
    refine ⟨nofun, ?_⟩
    rintro ⟨e, -, j, impossible, -⟩
    exact absurd impossible (Nat.not_lt_zero j)
  | succ left ih =>
    simp only [breaks_succ_iff]
    rcases readFrom_succ_cases (t := t) inside left with
      ⟨e, refused, answer⟩ | ⟨zero, answer⟩ | ⟨b, nonzero, shown, next, answer⟩
    · rw [answer, Except.error.injEq]
      refine ⟨fun same => ⟨e, same.symm, .inl refused⟩, ?_⟩
      rintro ⟨e', rfl, refused' | ⟨⟨b, -, shown⟩, -⟩⟩
      · rw [refused.unique refused']
      · exact absurd refused shown.not_refuses
    · rw [answer]
      refine ⟨nofun, ?_⟩
      rintro ⟨e, -, refused | ⟨⟨b, nonzero, shown⟩, -⟩⟩
      · exact absurd refused zero.not_refuses
      · exact absurd (shown.unique zero) nonzero
    · have same : (readFrom t addr left (i + 1)).map (b :: ·) = .error error ↔
          readFrom t addr left (i + 1) = .error error := by
        cases readFrom t addr left (i + 1) <;> simp [Except.map]
      rw [answer, same, ih next]
      refine exists_congr fun e => and_congr_right fun _ => ?_
      refine ⟨fun later => .inr ⟨⟨b, nonzero, shown⟩, later⟩, ?_⟩
      rintro (refused | ⟨-, later⟩)
      · exact absurd refused shown.not_refuses
      · exact later

theorem read_eq_ok_iff : read t addr max = .ok s ↔ Spells t addr.toNat max s :=
  readFrom_eq_ok_iff addr.toNat_lt

theorem read_eq_error_iff {error : StringError} :
    read t addr max = .error error ↔ ∃ e, error = .memory e ∧ Breaks t addr.toNat max e :=
  readFrom_eq_error_iff addr.toNat_lt

theorem Spells.eq_of_region (h : Spells t a max s) {r : Region}
    (covers : r.Covers a (min (s.length + 1) max))
    (alone : ∀ q ∈ t.toList, q ≠ r → r.Apart q) :
    s = (((Bytes.toList r.bytes).drop (a - r.start.toNat)).takeWhile (· ≠ 0)).take max := by
  obtain ⟨start, stop⟩ := covers
  -- every byte that was looked at is the one of the region
  have own (j : Nat) (b : UInt8) (looked : j < min (s.length + 1) max) (shown : t.Shows (a + j) b) :
      ((Bytes.toList r.bytes).drop (a - r.start.toNat))[j]? = some b := by
    obtain ⟨q, listed, covered, found⟩ := shown.exists_region
    have same : q = r := by
      by_contra other
      exact alone q listed other (a + j) ⟨⟨by omega, by omega⟩, covered⟩
    rw [List.getElem?_drop, ← found, same]
    congr 1
    omega
  have short := h.length
  obtain ⟨rest, content⟩ : s <+: (Bytes.toList r.bytes).drop (a - r.start.toNat) := by
    refine List.prefix_iff_getElem?.mpr fun j inside => ?_
    exact own j s[j] (by omega) (h.shown j s[j] (List.getElem?_eq_getElem inside))
  have solid : ∀ b ∈ s, decide (b ≠ 0) = true := by
    intro b listed
    rw [decide_eq_true_eq]
    exact fun zero => h.nonzero (zero ▸ listed)
  rw [← content, List.takeWhile_append_of_pos solid]
  rcases h.ending with full | zero
  · rw [← full, List.take_left]
  · rcases Nat.eq_or_lt_of_le short with full | before
    · rw [← full, List.take_left]
    · have ends := own s.length 0 (by omega) zero
      rw [← content, List.getElem?_append_right (Nat.le_refl _), Nat.sub_self] at ends
      cases rest with
      | nil => cases ends
      | cons b rest =>
        obtain rfl : b = 0 := by simpa using ends
        rw [List.takeWhile_cons_of_neg (by simp), List.append_nil, List.take_of_length_le short]

end CString

namespace Instance.Mapped

variable {i : Instance} {rs : List Region}

theorem room (h : i.Mapped rs) : ∀ r ∈ rs, ¬ roomAfter r.start < r.length := by
  induction h with
  | setup => simp
  | added _ done ih =>
    obtain ⟨memory, locals, memory', -, mapped, -⟩ := addRegion_eq_ok done
    simp only [List.forall_mem_append, List.forall_mem_singleton]
    refine ⟨ih, fun wraps => ?_⟩
    rw [RegionTable.add, if_pos wraps] at mapped
    cases mapped
  | passed _ _ ih | opened _ ih => exact ih

theorem not_covers_last (h : i.Mapped rs) (sized : i.memory.Sized) :
    ∀ r ∈ i.memory.toList, ¬ r.Covers (2 ^ 64 - 1) 1 := by
  rintro r listed ⟨-, stop⟩
  have short := sized r listed
  have room := h.room
  obtain ⟨stack, data, rodata, argument, permission, regions⟩ := h.consults
  rw [regions] at listed
  simp only [List.mem_cons, List.mem_append, List.mem_reverse, List.not_mem_nil, or_false]
    at listed
  rcases listed with rfl | rfl | rfl | mapped | rfl
  · simp only [RegionTable.stackBase, UInt64.reduceToNat] at stop short
    omega
  · simp only [RegionTable.dataBase, UInt64.reduceToNat] at stop short
    omega
  · simp only [RegionTable.rodataBase, UInt64.reduceToNat] at stop short
    omega
  · have fits := room r mapped
    rw [UInt64.lt_iff_toNat_lt, toNat_roomAfter, Region.length, UInt64.toNat_ofNat'] at fits
    have bound := r.start.toNat_lt
    omega
  · simp only [RegionTable.argumentBase, UInt64.reduceToNat] at stop short
    omega

end Instance.Mapped

namespace CString

/-- Reading a string is exact. It succeeds with `s` if and only if `s` is the string at the address,
cut after `max` bytes; otherwise it fails with the illegal access of the first byte that cannot be
read. It never runs past the last address, which no region reaches and no access may use. A string
that lies in one region, apart from all others, is the content of the region up to the first
zero. -/
theorem reading_exact (t : RegionTable) (addr : UInt64) (max : Nat) :
    (∀ s, read t addr max = .ok s ↔ Spells t addr.toNat max s) ∧
      ((∀ s, ¬ Spells t addr.toNat max s) → ∃ e, read t addr max = .error (.memory e) ∧
        (StepError.memory e).fault? = some .illegalMemory ∧ Breaks t addr.toNat max e) ∧
      read t addr max ≠ .error .wraps ∧
      (∀ access bytes, t.resolve (UInt64.ofNat (2 ^ 64 - 1)) 1 access ≠ .ok bytes) ∧
      (∀ (i : Instance) rs, i.Mapped rs → i.memory = t → t.Sized →
        ∀ r ∈ t.toList, ¬ r.Covers (2 ^ 64 - 1) 1) ∧
      ∀ s r, read t addr max = .ok s → r ∈ t.toList →
        r.Covers addr.toNat (min (s.length + 1) max) → (∀ q ∈ t.toList, q ≠ r → r.Apart q) →
        s = (((Bytes.toList r.bytes).drop (addr.toNat - r.start.toNat)).takeWhile (· ≠ 0)).take
          max := by
  refine ⟨fun _ => read_eq_ok_iff, fun nothing => ?_, fun wraps => ?_, fun access bytes => ?_, ?_,
    fun s r done _ covers alone => (read_eq_ok_iff.mp done).eq_of_region covers alone⟩
  · cases answer : read t addr max with
    | ok s => exact absurd (read_eq_ok_iff.mp answer) (nothing s)
    | error error =>
      obtain ⟨e, rfl, breaks⟩ := read_eq_error_iff.mp answer
      exact ⟨e, rfl, rfl, breaks⟩
  · obtain ⟨e, impossible, -⟩ := read_eq_error_iff.mp wraps
    cases impossible
  · rw [RegionTable.resolve_last]
    exact nofun
  · rintro i rs mapped rfl sized
    exact mapped.not_covers_last sized

end CString

def firstHalf : Region := ⟨"first", 0x500000000, Bytes.ofList [97, 98], .read⟩

def secondHalf : Region := ⟨"second", 0x500000002, Bytes.ofList [99, 0, 100], .read⟩

def adjoining : Instance :=
  let i := Instance.create (some windowStores) none .standard
  let memory :=
    RegionTable.fresh i.stack (Instance.initialData windowStores) windowStores.rodata
  { i with
    body := .live { memory with extensions := [secondHalf, firstHalf] }
      (.inMemory i.config.localCapacity) }

theorem reading_exact_adjoining :
    let t := adjoining.memory
    adjoining.Mapped [firstHalf, secondHalf] ∧ t.Sized ∧
      CString.read t 0x500000000 256 = .ok [97, 98, 99] ∧
      CString.Spells t 0x500000000 256 [97, 98, 99] ∧ CString.Spells t 0x500000000 2 [97, 98] ∧
      CString.read t 0x500000002 256 = .ok
        ((((Bytes.toList secondHalf.bytes).drop 0).takeWhile (· ≠ 0)).take 256) ∧
      (∃ e, CString.read t 0x500000004 256 = .error (.memory e) ∧
        CString.Breaks t 0x500000004 256 e) ∧
      ∀ r ∈ t.toList, ¬ r.Covers (2 ^ 64 - 1) 1 := by
  intro t
  have mapped : adjoining.Mapped [firstHalf, secondHalf] :=
    .added (.added
      (.setup (show (Instance.create (some windowStores) none .standard).setup = .ok _ from rfl))
      (show Instance.addRegion _ firstHalf = .ok _ from rfl))
      (show Instance.addRegion _ secondHalf = .ok adjoining from rfl)
  have sized : t.Sized := by
    unfold RegionTable.Sized
    decide +kernel
  have whole : CString.read t 0x500000000 256 = .ok [97, 98, 99] := by decide +kernel
  have cut : CString.read t 0x500000000 2 = .ok [97, 98] := by decide +kernel
  have letter : CString.read t 0x500000002 256 = .ok [99] := by decide +kernel
  have alone : ∀ q ∈ t.toList, q ≠ secondHalf → secondHalf.Apart q := by
    change ∀ q ∈ [_, _, _, _, _, _], _
    simp only [List.forall_mem_cons, List.not_mem_nil, false_implies, implies_true, and_true]
    refine ⟨fun _ => (Region.apart_of_le ?_).symm, fun _ => (Region.apart_of_le ?_).symm,
      fun _ => (Region.apart_of_le ?_).symm, fun other => absurd rfl other,
      fun _ => (Region.apart_of_le ?_).symm, fun _ => (Region.apart_of_le ?_).symm⟩
    all_goals decide +kernel
  have astray : ∀ s, ¬ CString.Spells t 0x500000004 256 s := by
    intro s spells
    have done := ((CString.reading_exact t 0x500000004 256).1 s).mpr spells
    have refused : (CString.read t 0x500000004 256).isOk = false := by decide +kernel
    rw [done] at refused
    cases refused
  obtain ⟨e, refused, -, breaks⟩ := (CString.reading_exact t 0x500000004 256).2.1 astray
  refine ⟨mapped, sized, whole, ((CString.reading_exact t 0x500000000 256).1 _).mp whole,
    ((CString.reading_exact t 0x500000000 2).1 _).mp cut, ?_, ⟨e, refused, breaks⟩,
    (CString.reading_exact t 0 0).2.2.2.2.1 adjoining _ mapped rfl sized⟩
  rw [letter]
  exact congrArg Except.ok ((CString.reading_exact t 0x500000002 256).2.2.2.2.2 [99] secondHalf
    letter (.tail _ (.tail _ (.tail _ (.head _)))) (by decide +kernel) alone)

end BytecodeVm
