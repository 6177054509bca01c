import BytecodeVm.Proofs.ByteStrings
import BytecodeVm.Store
import Mathlib

/-! The table of a persistent store as a finite map. Keys and values can be read back from their
bytes, and the order of keys as byte strings, with the most significant byte first, is the order of
the numbers. A store holds a map when its table has one row for each entry, by ascending key, and
its count is the number of entries. Looking up, listing and writing in the bytes of the table are
then the same operations on the map, whatever the layout and the capacity of the store. -/
namespace BytecodeVm

/-! ## Keys and values as bytes -/

namespace LittleEndian

theorem append_singleton_lt_iff {l l' : List UInt8} (length : l.length = l'.length) (a b : UInt8) :
    l ++ [a] < l' ++ [b] ↔ l < l' ∨ l = l' ∧ a < b := by
  induction l generalizing l' with
  | nil =>
    have empty : l' = [] := List.length_eq_zero_iff.mp length.symm
    simp [empty, List.cons_lt_cons_iff]
  | cons x l ih =>
    cases l' with
    | nil => cases length
    | cons y l' =>
      have shorter := ih (Nat.succ.inj length)
      simp only [List.cons_append, List.cons_lt_cons_iff, shorter, List.cons.injEq]
      tauto

theorem reverse_ofNat_lt_iff {count a b : Nat} (ha : a < 256 ^ count) (hb : b < 256 ^ count) :
    (ofNat count a).reverse < (ofNat count b).reverse ↔ a < b := by
  induction count generalizing a b with
  | zero =>
    have zeros : a = 0 ∧ b = 0 := by simpa using And.intro ha hb
    simp [zeros, ofNat]
  | succ count ih =>
    have ha' : a / 256 < 256 ^ count := Nat.div_lt_of_lt_mul (by rwa [← Nat.pow_succ'])
    have hb' : b / 256 < 256 ^ count := Nat.div_lt_of_lt_mul (by rwa [← Nat.pow_succ'])
    have high : (ofNat count (a / 256)).reverse = (ofNat count (b / 256)).reverse ↔
        a / 256 = b / 256 := by
      constructor
      · intro same
        have value := congrArg toNat (List.reverse_injective same)
        rwa [toNat_ofNat, toNat_ofNat, Nat.mod_eq_of_lt ha', Nat.mod_eq_of_lt hb'] at value
      · intro same
        rw [same]
    have low : a.toUInt8 < b.toUInt8 ↔ a % 256 < b % 256 := by
      simp [UInt8.lt_iff_toNat_lt]
    rw [ofNat, ofNat, List.reverse_cons, List.reverse_cons, append_singleton_lt_iff (by simp),
      ih ha' hb', high, low]
    omega

end LittleEndian

namespace Layout

theorem valueOf_value (v : UInt32) : valueOf (value v) = v := by
  have whole : (LittleEndian.ofNat 4 v.toNat).take 4 = LittleEndian.ofNat 4 v.toNat :=
    List.take_of_length_le (by simp)
  simp [valueOf, value, whole, LittleEndian.toNat_ofNat]

variable (l : Layout)

theorem keyOf_key (key : UInt32) : l.keyOf (l.key key) = key := by
  have whole : (LittleEndian.ofNat 4 key.toNat).reverse.take 4 =
      (LittleEndian.ofNat 4 key.toNat).reverse :=
    List.take_of_length_le (by simp)
  have small : key.toNat < 256 ^ 4 := key.toNat_lt
  rw [keyOf, Layout.key, List.drop_left, whole, List.reverse_reverse, LittleEndian.toNat_ofNat,
    Nat.mod_eq_of_lt small, UInt32.ofNat_toNat]

theorem key_injective : Function.Injective l.key :=
  Function.LeftInverse.injective l.keyOf_key

theorem key_lt_key_iff (a b : UInt32) : l.key a < l.key b ↔ a < b := by
  rw [Layout.key, Layout.key, UInt32.lt_iff_toNat_lt]
  induction l.lead with
  | nil => exact LittleEndian.reverse_ofNat_lt_iff a.toNat_lt b.toNat_lt
  | cons x lead ih => simpa using ih

theorem isPrefixOf_key (key : UInt32) : l.lead.isPrefixOf (l.key key) = true := by
  rw [Layout.key, List.isPrefixOf_iff_prefix]
  exact List.prefix_append l.lead _

end Layout

/-! ## Rows -/

namespace KeyTable

theorem mem_insertRow_iff {key value : List UInt8} {rows : List (List UInt8 × List UInt8)}
    (ascending : rows.Pairwise (·.1 < ·.1)) (row : List UInt8 × List UInt8) :
    row ∈ insertRow key value rows ↔ row = (key, value) ∨ row ∈ rows ∧ row.1 ≠ key := by
  induction rows with
  | nil => simp [insertRow]
  | cons first rest ih =>
    obtain ⟨less, above⟩ := List.pairwise_cons.mp ascending
    -- a key that is not greater than the first one occurs nowhere after it
    have others (small : key ≤ first.1) : ∀ r ∈ rest, r.1 ≠ key := by
      intro r member same
      have := less r member
      exact Std.not_lt.mpr small (same ▸ this)
    rw [insertRow]
    split
    · rename_i same
      have others := others (same ▸ Std.le_refl key)
      grind
    · rename_i different
      split
      · rename_i before
        have others := others (Std.le_of_lt before)
        grind
      · rw [List.mem_cons, ih above]
        grind

theorem ascending_insertRow {key value : List UInt8} {rows : List (List UInt8 × List UInt8)}
    (ascending : rows.Pairwise (·.1 < ·.1)) :
    (insertRow key value rows).Pairwise (·.1 < ·.1) := by
  induction rows with
  | nil => simp [insertRow]
  | cons first rest ih =>
    obtain ⟨less, above⟩ := List.pairwise_cons.mp ascending
    rw [insertRow]
    split
    · rename_i same
      exact List.pairwise_cons.mpr ⟨same ▸ less, above⟩
    · rename_i different
      split
      · rename_i before
        refine List.pairwise_cons.mpr ⟨fun row member => ?_, ascending⟩
        rcases List.mem_cons.mp member with rfl | member
        · exact before
        · exact Std.lt_trans before (less row member)
      · rename_i not_before
        have after : first.1 < key :=
          Std.lt_of_le_of_ne (Std.not_lt.mp not_before) (Ne.symm different)
        refine List.pairwise_cons.mpr ⟨fun row member => ?_, ih above⟩
        rcases (mem_insertRow_iff above row).mp member with rfl | ⟨member, -⟩
        · exact after
        · exact less row member

end KeyTable

def Layout.row (l : Layout) (e : Entry) : List UInt8 × List UInt8 := (l.key e.1, value e.2)

namespace EntryTable

variable (m : Std.ExtTreeMap UInt32 UInt32)

theorem mem_toList_iff (e : Entry) : e ∈ m.toList ↔ m[e.1]? = some e.2 :=
  Std.ExtTreeMap.mem_toList_iff_getElem?_eq_some

theorem ascending_toList : m.toList.Pairwise (·.1 < ·.1) :=
  Std.ExtTreeMap.ordered_keys_toList.imp Std.compare_eq_lt.mp

theorem mem_toList_insert_iff (key value : UInt32) (e : Entry) :
    e ∈ (m.insert key value).toList ↔ e = (key, value) ∨ e ∈ m.toList ∧ e.1 ≠ key := by
  rw [mem_toList_iff, mem_toList_iff, Std.ExtTreeMap.getElem?_insert]
  by_cases same : key = e.1
  · simp [← same, Prod.ext_iff, eq_comm]
  · simp [same, Ne.symm same, Prod.ext_iff]

theorem ascending_rows (l : Layout) : (m.toList.map l.row).Pairwise (·.1 < ·.1) := by
  rw [List.pairwise_map]
  exact (ascending_toList m).imp (l.key_lt_key_iff _ _).mpr

end EntryTable

/-- The table of the store consists of the entries of the map, and the count is theirs. -/
structure Persistent.Holds (s : Persistent) (m : Std.ExtTreeMap UInt32 UInt32) : Prop where
  count : s.count = m.size
  rows : s.table.rows = m.toList.map s.layout.row

namespace Persistent

variable {s : Persistent} {m : Std.ExtTreeMap UInt32 UInt32} {key value : UInt32}

theorem Holds.ascending (h : s.Holds m) : s.table.rows.Pairwise (·.1 < ·.1) := by
  rw [h.rows]
  exact EntryTable.ascending_rows m s.layout

theorem Holds.get? (h : s.Holds m) (key : UInt32) : s.get? key = m[key]? := by
  rw [Persistent.get?, KeyTable.get?, h.rows]
  cases found : (m.toList.map s.layout.row).lookup (s.layout.key key) with
  | none =>
    rw [List.lookup_eq_none_iff] at found
    cases value : m[key]? with
    | none => rfl
    | some v =>
      have listed := (EntryTable.mem_toList_iff m (key, v)).mpr value
      simpa [Layout.row] using found _ (List.mem_map_of_mem listed)
  | some bytes =>
    obtain ⟨before, after, split, -⟩ := List.lookup_eq_some_iff.mp found
    have listed : (s.layout.key key, bytes) ∈ m.toList.map s.layout.row := by simp [split]
    obtain ⟨e, member, row⟩ := List.mem_map.mp listed
    obtain ⟨same, rfl⟩ := Prod.mk.inj row
    have present := (EntryTable.mem_toList_iff m e).mp member
    rw [← s.layout.key_injective same, present, Option.map_some, Layout.valueOf_value]

theorem Holds.withLead (h : s.Holds m) : s.table.withLead s.layout.lead = s.table.rows := by
  refine List.filter_eq_self.mpr fun row member => ?_
  rw [h.rows] at member
  obtain ⟨e, -, rfl⟩ := List.mem_map.mp member
  exact s.layout.isPrefixOf_key e.1

theorem Holds.listed (h : s.Holds m) (isOpen : s.isOpen = true) : s.listed = .ok m.toList := by
  have back : (fun row => (s.layout.keyOf row.1, Layout.valueOf row.2)) ∘ s.layout.row = id := by
    funext e
    simp [Layout.row, Layout.keyOf_key, Layout.valueOf_value]
  simp only [Persistent.listed, isOpen, h.withLead, h.rows, List.map_map, back, List.map_id]
  rfl

theorem table_write (s : Persistent) (key value : UInt32) :
    (s.write key value).table = s.table.insert (s.layout.key key) (Layout.value value) := by
  simp [write, table, Database.table, Database.setTable]

theorem Holds.rows_write (h : s.Holds m) (key value : UInt32) :
    (s.write key value).table.rows = (m.insert key value).toList.map s.layout.row := by
  rw [table_write]
  refine (KeyTable.ascending_insertRow h.ascending).eq_of_mem_iff
    (EntryTable.ascending_rows (m.insert key value) s.layout) fun row => ?_
  rw [KeyTable.mem_insertRow_iff h.ascending, h.rows, List.mem_map, List.mem_map]
  constructor
  · rintro (rfl | ⟨⟨e, member, rfl⟩, other⟩)
    · exact ⟨(key, value), (EntryTable.mem_toList_insert_iff m key value _).mpr (.inl rfl), rfl⟩
    · have different : e.1 ≠ key := fun same => other (congrArg s.layout.key same)
      exact ⟨e, (EntryTable.mem_toList_insert_iff m key value e).mpr (.inr ⟨member, different⟩),
        rfl⟩
  · rintro ⟨e, member, rfl⟩
    rcases (EntryTable.mem_toList_insert_iff m key value e).mp member with rfl | ⟨member, different⟩
    · exact .inl rfl
    · exact .inr ⟨⟨e, member, rfl⟩, fun same => different (s.layout.key_injective same)⟩

theorem Holds.write (h : s.Holds m) (present : key ∈ m) (value : UInt32) :
    (s.write key value).Holds (m.insert key value) where
  count := by
    have size : (m.insert key value).size = m.size := by
      simp [Std.ExtTreeMap.size_insert, present]
    rw [size]
    exact h.count
  rows := h.rows_write key value

theorem Holds.insert (h : s.Holds m) (absent : m[key]? = none) (value : UInt32) :
    Holds { s.write key value with count := s.count + 1 } (m.insert key value) where
  count := by
    have size : (m.insert key value).size = m.size + 1 := by
      simp [Std.ExtTreeMap.size_insert, (getElem?_eq_none_iff m key).mp absent]
    rw [size, ← h.count]
  rows := h.rows_write key value

theorem holds_openOn_empty (layout : Layout) (capacity : Int) :
    (openOn .empty layout capacity).Holds ∅ where
  count := by simp [openOn, Database.table, Database.empty, KeyTable.withLead, KeyTable.empty]
  rows := by simp [openOn, table, Database.table, Database.empty, KeyTable.empty]

/-! ## One description of both kinds of stores -/

def insert (s : Persistent) (key value : UInt32) : Except StoreError Persistent :=
  if s.isFull then .error .full
  else .ok { s.write key value with count := s.count + 1 }

theorem update_eq (s : Persistent) (key value : UInt32) :
    s.update key value =
      if !s.isOpen then .error .closed
      else match s.get? key with
        | some _ => .ok (s.write key value)
        | none => s.insert key value := by
  unfold update put set insert
  cases s.layout <;> cases s.isOpen <;> cases s.get? key <;> cases s.isFull <;> rfl

theorem fetch_eq (s : Persistent) (key : UInt32) :
    s.fetch key =
      if !s.isOpen then .error .closed
      else match s.get? key with
        | some value => .ok (value, s)
        | none => (s.insert key 0).map fun s => (0, s) := by
  unfold fetch put getOrCreate insert
  cases s.layout <;> cases s.isOpen <;> cases s.get? key <;> cases s.isFull <;> rfl

section

variable (h : s.Holds m) (isOpen : s.isOpen = true)

include h isOpen

theorem Holds.update_of_present (present : key ∈ m) (value : UInt32) :
    s.update key value = .ok (s.write key value) := by
  obtain ⟨old, found⟩ := Option.isSome_iff_exists.mp
    (Std.ExtTreeMap.isSome_getElem?_iff_mem.mpr present)
  simp [update_eq, isOpen, h.get?, found]

theorem Holds.update_of_absent (absent : m[key]? = none) (value : UInt32) :
    s.update key value = s.insert key value := by
  simp [update_eq, isOpen, h.get?, absent]

theorem Holds.fetch_of_present (found : m[key]? = some value) : s.fetch key = .ok (value, s) := by
  simp [fetch_eq, isOpen, h.get?, found]

theorem Holds.fetch_of_absent (absent : m[key]? = none) :
    s.fetch key = (s.insert key 0).map fun s => (0, s) := by
  simp [fetch_eq, isOpen, h.get?, absent]

end

end Persistent

end BytecodeVm
