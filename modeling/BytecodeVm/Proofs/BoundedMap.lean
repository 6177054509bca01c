import BytecodeVm.Proofs.EntryTable
import BytecodeVm.Store
import Mathlib

/-! Stores as bounded maps. A bounded map takes no new key once it is full, and lists its entries
by ascending key. Each kind of store, volatile or persistent and whatever its layout, represents
such a map, and every call keeps it so; hence all of them give the same answers. -/
namespace BytecodeVm

structure BoundedMap where
  capacity : Nat
  entries : Std.ExtTreeMap UInt32 UInt32
  bounded : entries.size ≤ capacity

namespace BoundedMap

def empty (capacity : Nat) : BoundedMap := ⟨capacity, ∅, by simp⟩

def Accepts (m : BoundedMap) (key : UInt32) : Prop :=
  key ∈ m.entries ∨ m.entries.size < m.capacity

instance (m : BoundedMap) (key : UInt32) : Decidable (m.Accepts key) :=
  inferInstanceAs (Decidable (_ ∨ _))

def put (m : BoundedMap) (key value : UInt32) (accepts : m.Accepts key) : BoundedMap where
  capacity := m.capacity
  entries := m.entries.insert key value
  bounded := by
    have bounded := m.bounded
    rw [Std.ExtTreeMap.size_insert]
    rcases accepts with present | room
    · simpa [present] using bounded
    · split <;> omega

def update (m : BoundedMap) (key value : UInt32) : Except StoreError BoundedMap :=
  if accepts : m.Accepts key then .ok (m.put key value accepts) else .error .full

def fetch (m : BoundedMap) (key : UInt32) : Except StoreError (UInt32 × BoundedMap) :=
  match m.entries[key]? with
  | some value => .ok (value, m)
  | none => (m.update key 0).map fun m => (0, m)

def range (m : BoundedMap) (count : Option Nat) : List Entry := visited count m.entries.toList

variable {m : BoundedMap} {key value : UInt32}

theorem update_of_accepts (accepts : m.Accepts key) :
    m.update key value = .ok (m.put key value accepts) :=
  dif_pos accepts

theorem update_of_full (absent : m.entries[key]? = none) (full : m.capacity ≤ m.entries.size) :
    m.update key value = .error .full := by
  refine dif_neg ?_
  rintro (present | room)
  · exact (getElem?_eq_none_iff m.entries key).mp absent present
  · omega

theorem fetch_of_present (present : m.entries[key]? = some value) :
    m.fetch key = .ok (value, m) := by
  simp only [fetch, present]

theorem fetch_of_absent (absent : m.entries[key]? = none) :
    m.fetch key = (m.update key 0).map fun m => (0, m) := by
  simp only [fetch, absent]

end BoundedMap

/-! ## Calls -/

structure StoreInterface (σ : Type) where
  update : σ → UInt32 → UInt32 → Except StoreError σ
  fetch : σ → UInt32 → Except StoreError (UInt32 × σ)
  range : σ → Option Nat → Except StoreError (List Entry)
  size : σ → Nat

def Store.interface : StoreInterface Store := ⟨Store.update, Store.fetch, Store.range, Store.size⟩

def BoundedMap.interface : StoreInterface BoundedMap :=
  ⟨BoundedMap.update, BoundedMap.fetch, fun m count => .ok (m.range count), (·.entries.size)⟩

inductive StoreCall
  | update (key value : UInt32)
  | fetch (key : UInt32)
  | range (count : Option Nat)
  | size
deriving DecidableEq

inductive StoreAnswer
  | refused (e : StoreError)
  | updated
  | fetched (value : UInt32)
  | listed (entries : List Entry)
  | counted (n : Nat)
deriving DecidableEq

namespace StoreInterface

variable {σ τ : Type}

def perform (i : StoreInterface σ) (s : σ) : StoreCall → StoreAnswer × σ
  | .update key value => match i.update s key value with
    | .ok s => (.updated, s)
    | .error e => (.refused e, s)
  | .fetch key => match i.fetch s key with
    | .ok (value, s) => (.fetched value, s)
    | .error e => (.refused e, s)
  | .range count => match i.range s count with
    | .ok entries => (.listed entries, s)
    | .error e => (.refused e, s)
  | .size => (.counted (i.size s), s)

def serve (i : StoreInterface σ) (s : σ) : List StoreCall → List StoreAnswer × σ
  | [] => ([], s)
  | call :: rest =>
    let (answer, s) := i.perform s call
    let (answers, s) := i.serve s rest
    (answer :: answers, s)

theorem serve_induction {i : StoreInterface σ} {P : σ → Prop} {Q : StoreAnswer → Prop} {s : σ}
    (initial : P s) (kept : ∀ s call, P s → Q (i.perform s call).1 ∧ P (i.perform s call).2)
    (calls : List StoreCall) :
    (∀ answer ∈ (i.serve s calls).1, Q answer) ∧ P (i.serve s calls).2 := by
  induction calls generalizing s with
  | nil => exact ⟨nofun, initial⟩
  | cons call rest ih =>
    have first := kept s call initial
    have later := ih first.2
    simp only [serve, List.forall_mem_cons]
    exact ⟨⟨first.1, later.1⟩, later.2⟩

theorem perform_of_refused {i : StoreInterface σ} {s : σ} {call : StoreCall} {e : StoreError}
    (refused : (i.perform s call).1 = .refused e) : (i.perform s call).2 = s := by
  cases call with
  | update | fetch | range =>
    simp only [perform] at refused ⊢
    split <;> simp_all
  | size => rfl

end StoreInterface

/-- Both refuse for the same reason, or both answer, in agreement. -/
inductive SameAnswers {α β : Type} (R : α → β → Prop) :
    Except StoreError α → Except StoreError β → Prop
  | refused (e : StoreError) : SameAnswers R (.error e) (.error e)
  | answered {a : α} {b : β} (h : R a b) : SameAnswers R (.ok a) (.ok b)

theorem SameAnswers.map {α β γ δ : Type} {R : α → β → Prop} {S : γ → δ → Prop}
    {x : Except StoreError α} {y : Except StoreError β} (h : SameAnswers R x y) {f : α → γ}
    {g : β → δ} (kept : ∀ a b, R a b → S (f a) (g b)) : SameAnswers S (x.map f) (y.map g) := by
  cases h with
  | refused e => exact .refused e
  | answered h => exact .answered (kept _ _ h)

theorem SameAnswers.mapLeft {α β γ : Type} {R : α → β → Prop} {S : γ → β → Prop}
    {x : Except StoreError α} {y : Except StoreError β} (h : SameAnswers R x y) {f : α → γ}
    (kept : ∀ a b, R a b → S (f a) b) : SameAnswers S (x.map f) y := by
  cases h with
  | refused e => exact .refused e
  | answered h => exact .answered (kept _ _ h)

namespace StoreInterface

variable {σ τ : Type}

/-- Stores in related states answer every call alike and stay related. -/
structure Simulates (c : StoreInterface σ) (a : StoreInterface τ) (R : σ → τ → Prop) : Prop where
  update : ∀ s t, R s t → ∀ key value, SameAnswers R (c.update s key value) (a.update t key value)
  fetch : ∀ s t, R s t → ∀ key,
    SameAnswers (fun x y => x.1 = y.1 ∧ R x.2 y.2) (c.fetch s key) (a.fetch t key)
  range : ∀ s t, R s t → ∀ count, c.range s count = a.range t count
  size : ∀ s t, R s t → c.size s = a.size t

variable {c : StoreInterface σ} {a : StoreInterface τ} {R : σ → τ → Prop} {s : σ} {t : τ}

theorem Simulates.perform (h : c.Simulates a R) (related : R s t) (call : StoreCall) :
    (c.perform s call).1 = (a.perform t call).1 ∧
      R (c.perform s call).2 (a.perform t call).2 := by
  cases call with
  | update key value =>
    have same := h.update s t related key value
    simp only [StoreInterface.perform]
    generalize c.update s key value = x at same ⊢
    generalize a.update t key value = y at same ⊢
    cases same with
    | refused e => exact ⟨rfl, related⟩
    | answered next => exact ⟨rfl, next⟩
  | fetch key =>
    have same := h.fetch s t related key
    simp only [StoreInterface.perform]
    generalize c.fetch s key = x at same ⊢
    generalize a.fetch t key = y at same ⊢
    cases same with
    | refused e => exact ⟨rfl, related⟩
    | answered next => exact ⟨congrArg _ next.1, next.2⟩
  | range count =>
    simp only [StoreInterface.perform, h.range s t related count]
    split <;> exact ⟨rfl, related⟩
  | size => exact ⟨congrArg _ (h.size s t related), related⟩

theorem Simulates.serve (h : c.Simulates a R) (related : R s t) (calls : List StoreCall) :
    (c.serve s calls).1 = (a.serve t calls).1 ∧ R (c.serve s calls).2 (a.serve t calls).2 := by
  induction calls generalizing s t with
  | nil => exact ⟨rfl, related⟩
  | cons call rest ih =>
    have first := h.perform related call
    have later := ih first.2
    simp only [StoreInterface.serve]
    exact ⟨by rw [first.1, later.1], later.2⟩

end StoreInterface

/-! ## The volatile store -/

structure Volatile.Represents (s : Volatile) (m : BoundedMap) : Prop where
  capacity : s.capacity = m.capacity
  distinct : (s.entries.map Prod.fst).Nodup
  entries : ∀ e, e ∈ s.entries ↔ e ∈ m.entries.toList

namespace Volatile

variable {s : Volatile} {m : BoundedMap} {key value : UInt32}

theorem Represents.perm (h : s.Represents m) : s.entries.Perm m.entries.toList := by
  have distinct : m.entries.toList.Nodup := by
    refine (EntryTable.ascending_toList m.entries).imp ?_
    rintro a b less rfl
    exact UInt32.lt_irrefl _ less
  exact (List.perm_ext_iff_of_nodup h.distinct.of_map distinct).mpr h.entries

theorem Represents.size (h : s.Represents m) : s.size = m.entries.size := by
  rw [Volatile.size, h.perm.length_eq, Std.ExtTreeMap.length_toList]

theorem Represents.get? (h : s.Represents m) (key : UInt32) : s.get? key = m.entries[key]? := by
  rw [Volatile.get?]
  cases found : s.entries.lookup key with
  | none =>
    rw [List.lookup_eq_none_iff] at found
    cases value : m.entries[key]? with
    | none => rfl
    | some v =>
      have listed := (EntryTable.mem_toList_iff m.entries (key, v)).mpr value
      simpa using found _ ((h.entries (key, v)).mpr listed)
  | some v =>
    obtain ⟨before, after, split, -⟩ := List.lookup_eq_some_iff.mp found
    have listed : (key, v) ∈ s.entries := by simp [split]
    exact ((EntryTable.mem_toList_iff m.entries (key, v)).mp ((h.entries _).mp listed)).symm

theorem Represents.listed (h : s.Represents m) : s.listed = m.entries.toList := by
  have sorted : s.listed.Pairwise (fun a b => decide (a.1 ≤ b.1) = true) := by
    refine List.pairwise_mergeSort ?_ ?_ s.entries
    · intro a b c first second
      simp only [decide_eq_true_eq] at first second ⊢
      exact UInt32.le_trans first second
    · intro a b
      simpa using UInt32.le_total a.1 b.1
  have same : s.listed.Perm m.entries.toList := (List.mergeSort_perm _ _).trans h.perm
  refine same.eq_of_pairwise ?_ sorted ((EntryTable.ascending_toList m.entries).imp ?_)
  · intro a b listed listed' le le'
    have key : a.1 = b.1 := UInt32.le_antisymm (by simpa using le) (by simpa using le')
    have left := (EntryTable.mem_toList_iff m.entries a).mp (same.mem_iff.mp listed)
    have right := (EntryTable.mem_toList_iff m.entries b).mp listed'
    rw [key, right] at left
    exact Prod.ext key (Option.some.inj left).symm
  · intro a b less
    simpa using UInt32.le_of_lt less

theorem represents_empty {capacity : Int} (positive : 0 < capacity) :
    (empty capacity).Represents (.empty capacity.toNat) where
  capacity := if_neg (not_le.mpr positive)
  distinct := List.nodup_nil
  entries e := by
    rw [EntryTable.mem_toList_iff]
    simp [empty, BoundedMap.empty]

theorem Represents.replace (h : s.Represents m) (present : key ∈ m.entries)
    (accepts : m.Accepts key) : (s.replace key value).Represents (m.put key value accepts) where
  capacity := h.capacity
  distinct := by
    have keys : Prod.fst ∘ (fun e : Entry => if e.1 = key then (key, value) else e) =
        Prod.fst := by
      funext e
      by_cases same : e.1 = key <;> simp [same]
    rw [Volatile.replace, List.map_map, keys]
    exact h.distinct
  entries e := by
    obtain ⟨v, old⟩ := Option.isSome_iff_exists.mp
      (Std.ExtTreeMap.isSome_getElem?_iff_mem.mpr present)
    have listed := (h.entries _).mpr ((EntryTable.mem_toList_iff m.entries (key, v)).mpr old)
    rw [BoundedMap.put, EntryTable.mem_toList_insert_iff, ← h.entries, Volatile.replace,
      List.mem_map]
    constructor
    · rintro ⟨old, member, rfl⟩
      by_cases same : old.1 = key
      · exact .inl (if_pos same)
      · rw [if_neg same]
        exact .inr ⟨member, same⟩
    · rintro (rfl | ⟨member, other⟩)
      · exact ⟨(key, v), listed, if_pos rfl⟩
      · exact ⟨e, member, if_neg other⟩

theorem Represents.key_ne_of_absent (h : s.Represents m) (absent : m.entries[key]? = none)
    {e : Entry} (member : e ∈ s.entries) : e.1 ≠ key := by
  rintro rfl
  have present := (EntryTable.mem_toList_iff m.entries e).mp ((h.entries e).mp member)
  rw [absent] at present
  cases present

theorem Represents.insert (h : s.Represents m) (absent : m.entries[key]? = none)
    (accepts : m.Accepts key) :
    Represents { s with entries := s.entries ++ [(key, value)] } (m.put key value accepts) where
  capacity := h.capacity
  distinct := by
    rw [List.map_append, List.nodup_append]
    refine ⟨h.distinct, by simp, ?_⟩
    rintro k listed k' new rfl
    obtain ⟨e, member, rfl⟩ := List.mem_map.mp listed
    exact h.key_ne_of_absent absent member (List.mem_singleton.mp new)
  entries e := by
    rw [BoundedMap.put, EntryTable.mem_toList_insert_iff, ← h.entries, List.mem_append,
      List.mem_singleton, or_comm]
    refine or_congr_right ⟨fun member => ⟨member, ?_⟩, And.left⟩
    exact h.key_ne_of_absent absent member

theorem Represents.insert_same (h : s.Represents m) (absent : m.entries[key]? = none) :
    SameAnswers Represents (s.insert key value) (m.update key value) := by
  have limit : s.capacity ≤ s.size ↔ m.capacity ≤ m.entries.size := by rw [h.capacity, h.size]
  unfold Volatile.insert
  split
  · rename_i full
    rw [BoundedMap.update_of_full absent (limit.mp full)]
    exact .refused .full
  · rename_i room
    rw [BoundedMap.update_of_accepts (.inr (not_le.mp (mt limit.mpr room)))]
    exact .answered (h.insert absent _)

theorem Represents.update_same (h : s.Represents m) (key value : UInt32) :
    SameAnswers Represents (s.update key value) (m.update key value) := by
  rw [Volatile.update, h.get?]
  split
  · rename_i old
    have present : key ∈ m.entries := Std.ExtTreeMap.isSome_getElem?_iff_mem.mp (by simp [old])
    rw [BoundedMap.update_of_accepts (.inl present)]
    exact .answered (h.replace present _)
  · rename_i absent
    exact h.insert_same absent

theorem Represents.fetch_same (h : s.Represents m) (key : UInt32) :
    SameAnswers (fun x y => x.1 = y.1 ∧ Represents x.2 y.2) (s.fetch key) (m.fetch key) := by
  rw [Volatile.fetch, h.get?]
  split
  · rename_i present
    rw [BoundedMap.fetch_of_present present]
    exact .answered ⟨rfl, h⟩
  · rename_i absent
    rw [BoundedMap.fetch_of_absent absent]
    exact (h.insert_same absent).map fun _ _ next => ⟨rfl, next⟩

end Volatile

/-! ## Persistent stores -/

structure Persistent.Represents (s : Persistent) (m : BoundedMap) : Prop
    extends s.Holds m.entries where
  isOpen : s.isOpen = true
  positive : 0 < m.capacity
  capacity : s.capacity = m.capacity

namespace Persistent

variable {s : Persistent} {m : BoundedMap} {key value : UInt32}

theorem represents_openOn {capacity : Int} (positive : 0 < capacity) (l : Layout) :
    (openOn .empty l capacity).Represents (.empty capacity.toNat) where
  isOpen := rfl
  positive := by simpa [BoundedMap.empty] using positive
  capacity := (Int.toNat_of_nonneg positive.le).symm
  toHolds := holds_openOn_empty l capacity

theorem Represents.isFull_iff (h : s.Represents m) :
    s.isFull = true ↔ m.capacity ≤ m.entries.size := by
  have positive := h.positive
  simp only [isFull, h.capacity, h.count, Bool.and_eq_true, decide_eq_true_eq]
  omega

theorem Represents.write (h : s.Represents m) (present : key ∈ m.entries)
    (accepts : m.Accepts key) : (s.write key value).Represents (m.put key value accepts) where
  isOpen := h.isOpen
  positive := h.positive
  capacity := h.capacity
  toHolds := h.toHolds.write present value

theorem Represents.insert (h : s.Represents m) (absent : m.entries[key]? = none)
    (accepts : m.Accepts key) :
    Represents { s.write key value with count := s.count + 1 } (m.put key value accepts) where
  isOpen := h.isOpen
  positive := h.positive
  capacity := h.capacity
  toHolds := h.toHolds.insert absent value

theorem Represents.insert_same (h : s.Represents m) (absent : m.entries[key]? = none) :
    SameAnswers Represents (s.insert key value) (m.update key value) := by
  unfold Persistent.insert
  split
  · rename_i full
    rw [BoundedMap.update_of_full absent (h.isFull_iff.mp full)]
    exact .refused .full
  · rename_i room
    rw [BoundedMap.update_of_accepts (.inr (not_le.mp (mt h.isFull_iff.mpr room)))]
    exact .answered (h.insert absent _)

theorem Represents.update_same (h : s.Represents m) (key value : UInt32) :
    SameAnswers Represents (s.update key value) (m.update key value) := by
  by_cases present : key ∈ m.entries
  · rw [h.update_of_present h.isOpen present, BoundedMap.update_of_accepts (.inl present)]
    exact .answered (h.write present _)
  · have absent : m.entries[key]? = none := (getElem?_eq_none_iff m.entries key).mpr present
    rw [h.update_of_absent h.isOpen absent]
    exact h.insert_same absent

theorem Represents.fetch_same (h : s.Represents m) (key : UInt32) :
    SameAnswers (fun x y => x.1 = y.1 ∧ Represents x.2 y.2) (s.fetch key) (m.fetch key) := by
  cases found : m.entries[key]? with
  | some value =>
    rw [h.fetch_of_present h.isOpen found, BoundedMap.fetch_of_present found]
    exact .answered ⟨rfl, h⟩
  | none =>
    rw [h.fetch_of_absent h.isOpen found, BoundedMap.fetch_of_absent found]
    exact (h.insert_same found).map fun _ _ next => ⟨rfl, next⟩

end Persistent

/-! ## All kinds of stores -/

inductive Store.Represents : Store → BoundedMap → Prop
  | volatile {s : Volatile} {m : BoundedMap} (h : s.Represents m) : Represents (.volatile s) m
  | persistent {s : Persistent} {m : BoundedMap} (h : s.Represents m) :
      Represents (.persistent s) m

namespace Store

theorem Represents.size {s : Store} {m : BoundedMap} (h : s.Represents m) :
    s.size = m.entries.size := by
  cases h with
  | volatile h => exact h.size
  | persistent h => exact h.count

theorem Represents.listed {s : Store} {m : BoundedMap} (h : s.Represents m) :
    s.listed = .ok m.entries.toList := by
  cases h with
  | volatile h => exact congrArg Except.ok h.listed
  | persistent h => exact h.listed h.isOpen

theorem simulates : interface.Simulates BoundedMap.interface Represents where
  update s m h key value := by
    cases h with
    | volatile h => exact (h.update_same key value).mapLeft fun _ _ => .volatile
    | persistent h => exact (h.update_same key value).mapLeft fun _ _ => .persistent
  fetch s m h key := by
    cases h with
    | volatile h => exact (h.fetch_same key).mapLeft fun _ _ next => ⟨next.1, .volatile next.2⟩
    | persistent h => exact (h.fetch_same key).mapLeft fun _ _ next => ⟨next.1, .persistent next.2⟩
  range s m h count := by
    simp only [interface, BoundedMap.interface, range, h.listed]
    rfl
  size s m h := h.size

def emptyOnes (capacity : Int) (bucket : String) : List Store :=
  [.inMemory capacity, .persistent (.openOn .empty (.bucket bucket) capacity),
    .persistent (.openOn .empty .keyspace capacity)]

theorem represents_emptyOnes {capacity : Int} (positive : 0 < capacity) (bucket : String) :
    ∀ s ∈ emptyOnes capacity bucket, s.Represents (.empty capacity.toNat) := by
  simp only [emptyOnes, List.forall_mem_cons]
  exact ⟨.volatile (Volatile.represents_empty positive),
    .persistent (Persistent.represents_openOn positive _),
    .persistent (Persistent.represents_openOn positive _), nofun⟩

end Store

namespace BoundedMap

def Proper : StoreAnswer → Prop
  | .refused e => e = .full
  | .listed entries => entries.Pairwise (·.1 < ·.1)
  | .updated | .fetched _ | .counted _ => True

theorem update_cases (m : BoundedMap) (key value : UInt32) :
    m.update key value = .error .full ∨
      ∃ m', m.update key value = .ok m' ∧ m'.capacity = m.capacity := by
  by_cases accepts : m.Accepts key
  · exact .inr ⟨_, update_of_accepts accepts, rfl⟩
  · exact .inl (dif_neg accepts)

theorem proper_perform (m : BoundedMap) (call : StoreCall) :
    Proper (interface.perform m call).1 ∧ (interface.perform m call).2.capacity = m.capacity := by
  cases call with
  | update key value =>
    rcases m.update_cases key value with full | ⟨m', updated, kept⟩
    · simp [interface, StoreInterface.perform, full, Proper]
    · simp [interface, StoreInterface.perform, updated, Proper, kept]
  | fetch key =>
    cases found : m.entries[key]? with
    | some v => simp [interface, StoreInterface.perform, fetch_of_present found, Proper]
    | none =>
      rcases m.update_cases key 0 with full | ⟨m', updated, kept⟩
      · simp [interface, StoreInterface.perform, fetch_of_absent found, full, Except.map, Proper]
      · simp [interface, StoreInterface.perform, fetch_of_absent found, updated, Except.map, Proper,
          kept]
  | range count =>
    refine ⟨?_, rfl⟩
    cases count with
    | none => exact EntryTable.ascending_toList m.entries
    | some n => exact (EntryTable.ascending_toList m.entries).sublist (List.take_sublist _ _)
  | size => exact ⟨trivial, rfl⟩

theorem proper_serve (m : BoundedMap) (calls : List StoreCall) :
    (∀ answer ∈ (interface.serve m calls).1, Proper answer) ∧
      (interface.serve m calls).2.capacity = m.capacity := by
  refine StoreInterface.serve_induction (P := fun m' : BoundedMap => m'.capacity = m.capacity) rfl
    ?_ calls
  intro m' call same
  have step := m'.proper_perform call
  exact ⟨step.1, step.2.trans same⟩

end BoundedMap

/-- Whatever is called, empty stores of all kinds with the same capacity answer like the bounded map
with that capacity: they list their entries by ascending key, never hold more than the capacity, and
refuse a call only because they are full, which then changes nothing. -/
theorem Store.stores_agree (capacity : Int) (positive : 0 < capacity) (bucket : String)
    (calls : List StoreCall) :
    let reference := BoundedMap.interface.serve (.empty capacity.toNat) calls
    ∀ s ∈ emptyOnes capacity bucket,
      let served := interface.serve s calls
      served.1 = reference.1 ∧ served.2.size = reference.2.entries.size ∧
        served.2.size ≤ capacity ∧
        (∀ entries, .listed entries ∈ served.1 → entries.Pairwise (·.1 < ·.1)) ∧
        ∀ call e, (interface.perform served.2 call).1 = .refused e →
          e = .full ∧ (interface.perform served.2 call).2 = served.2 := by
  intro reference s member served
  have start := represents_emptyOnes positive bucket s member
  obtain ⟨answers, related⟩ := simulates.serve start calls
  obtain ⟨proper, limit⟩ := BoundedMap.proper_serve (.empty capacity.toNat) calls
  refine ⟨answers, related.size, ?_, ?_, ?_⟩
  · have bounded : reference.2.entries.size ≤ capacity.toNat :=
      reference.2.bounded.trans_eq limit
    have size : served.2.size = reference.2.entries.size := related.size
    omega
  · intro entries listed
    rw [answers] at listed
    exact proper _ listed
  · intro call e refused
    refine ⟨?_, StoreInterface.perform_of_refused refused⟩
    have same := (simulates.perform related call).1
    have possible := (BoundedMap.proper_perform reference.2 call).1
    rw [← same, refused] at possible
    exact possible

theorem Store.stores_agree_at_capacity :
    let calls : List StoreCall := [.update 256 7, .fetch 1, .update 1 5, .fetch 9, .update 256 8,
      .range none, .range (some 1), .size]
    (0 : Int) < 2 ∧ ∀ s ∈ emptyOnes 2 "", (interface.serve s calls).1 =
      [.updated, .fetched 0, .updated, .refused .full, .updated, .listed [(1, 5), (256, 8)],
        .listed [(1, 5)], .counted 2] := by
  intro calls
  refine ⟨by decide, fun s member => ?_⟩
  rw [(stores_agree 2 (by decide) "" calls s member).1]
  decide

end BytecodeVm
