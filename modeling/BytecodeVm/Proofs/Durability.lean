import BytecodeVm.Proofs.BoundedMap
import BytecodeVm.Proofs.EntryTable
import Mathlib

/-! Persistent stores over their whole life. A store is called, closed and opened again on its
database any number of times and with any capacities, also with fewer places than it has entries.
It always holds some finite map, which accepted calls change and which outlives every closing. -/
namespace BytecodeVm

inductive StoreEvent
  | call (c : StoreCall)
  | close
  | reopen (capacity : Int)
deriving DecidableEq

namespace StoreEvent

def isReopen : StoreEvent → Bool
  | .reopen _ => true
  | .call _ | .close => false

def limit (before : Int) : StoreEvent → Int
  | .reopen capacity => capacity
  | .call _ | .close => before

def leavesOpen (before : Bool) : StoreEvent → Bool
  | .call _ => before
  | .close => false
  | .reopen _ => true

end StoreEvent

namespace Persistent

def range (s : Persistent) (count : Option Nat) : Except StoreError (List Entry) :=
  s.listed.map (visited count)

def interface : StoreInterface Persistent := ⟨update, fetch, range, count⟩

def reopen (s : Persistent) (capacity : Int) : Persistent := openOn s.database s.layout capacity

def perform (s : Persistent) : StoreEvent → Persistent
  | .call c => (interface.perform s c).2
  | .close => s.close
  | .reopen capacity => s.reopen capacity

def after (s : Persistent) (history : List StoreEvent) : Persistent := history.foldl perform s

variable {s s' : Persistent} {m : Std.ExtTreeMap UInt32 UInt32} {key value : UInt32}

/-! ## Closed stores -/

theorem update_of_closed (closed : s.isOpen = false) (key value : UInt32) :
    s.update key value = .error .closed := by
  simp [update_eq, closed]

theorem fetch_of_closed (closed : s.isOpen = false) (key : UInt32) :
    s.fetch key = .error .closed := by
  simp [fetch_eq, closed]

theorem range_of_closed (closed : s.isOpen = false) (count : Option Nat) :
    s.range count = .error .closed := by
  simp [range, listed, closed, Except.map]

theorem perform_of_closed (closed : s.isOpen = false) {e : StoreEvent}
    (stays : e.isReopen = false) : s.perform e = s := by
  cases e with
  | call c =>
    cases c with
    | update key value =>
      simp [perform, StoreInterface.perform, interface, update_of_closed closed]
    | fetch key => simp [perform, StoreInterface.perform, interface, fetch_of_closed closed]
    | range count => simp [perform, StoreInterface.perform, interface, range_of_closed closed]
    | size => rfl
  | close => simp [perform, close, ← closed]
  | reopen capacity => cases stays

theorem after_of_closed (closed : s.isOpen = false) {later : List StoreEvent}
    (stays : ∀ e ∈ later, e.isReopen = false) : s.after later = s := by
  induction later with
  | nil => rfl
  | cons e later ih =>
    rw [List.forall_mem_cons] at stays
    have first : s.after (e :: later) = (s.perform e).after later := rfl
    rw [first, perform_of_closed closed stays.1]
    exact ih stays.2

/-! ## Open stores -/

theorem isFull_iff (s : Persistent) :
    s.isFull = true ↔ 0 < s.capacity ∧ s.capacity ≤ s.count := by
  simp [isFull]

theorem Holds.insert_cases (h : s.Holds m) (absent : m[key]? = none) (value : UInt32) :
    (0 < s.capacity ∧ s.capacity ≤ s.count) ∧ s.insert key value = .error .full ∨
      ¬ (0 < s.capacity ∧ s.capacity ≤ s.count) ∧ ∃ s', s.insert key value = .ok s' ∧
        s'.Holds (m.insert key value) ∧ s'.isOpen = s.isOpen ∧ s'.capacity = s.capacity := by
  rw [← isFull_iff]
  by_cases full : s.isFull = true
  · exact .inl ⟨full, if_pos full⟩
  · exact .inr ⟨full, _, if_neg full, h.insert absent value, rfl, rfl⟩

theorem Holds.of_update (h : s.Holds m) (accepted : s.update key value = .ok s') :
    s'.Holds (m.insert key value) ∧ s'.isOpen = s.isOpen ∧ s'.capacity = s.capacity := by
  by_cases isOpen : s.isOpen = true
  · by_cases present : key ∈ m
    · rw [h.update_of_present isOpen present] at accepted
      cases accepted
      exact ⟨h.write present value, rfl, rfl⟩
    · have absent : m[key]? = none := (getElem?_eq_none_iff m key).mpr present
      rw [h.update_of_absent isOpen absent] at accepted
      rcases h.insert_cases absent value with ⟨-, refused⟩ | ⟨-, next, added, outcome⟩
      · cases refused.symm.trans accepted
      · cases added.symm.trans accepted
        exact outcome
  · rw [update_of_closed (Bool.eq_false_of_not_eq_true isOpen)] at accepted
    cases accepted

theorem call_cases (s : Persistent) (c : StoreCall) :
    s.perform (.call c) = s ∨ ∃ key value, s.update key value = .ok (s.perform (.call c)) := by
  cases c with
  | update key value =>
    cases outcome : s.update key value with
    | error e => exact .inl (by simp [perform, StoreInterface.perform, interface, outcome])
    | ok next =>
      refine .inr ⟨key, value, ?_⟩
      simp [perform, StoreInterface.perform, interface, outcome]
  | fetch key =>
    by_cases isOpen : s.isOpen = true
    · cases found : s.get? key with
      | some value =>
        exact .inl (by simp [perform, StoreInterface.perform, interface, fetch_eq, isOpen, found])
      | none =>
        cases outcome : s.insert key 0 with
        | error e =>
          refine .inl ?_
          simp [perform, StoreInterface.perform, interface, fetch_eq, isOpen, found, outcome,
            Except.map]
        | ok next =>
          refine .inr ⟨key, 0, ?_⟩
          simp [perform, StoreInterface.perform, interface, fetch_eq, update_eq, isOpen, found,
            outcome, Except.map]
    · exact .inl (perform_of_closed (Bool.eq_false_of_not_eq_true isOpen) rfl)
  | range count =>
    refine .inl ?_
    cases outcome : s.range count <;> simp [perform, StoreInterface.perform, interface, outcome]
  | size => exact .inl rfl

/-! ## Whole histories -/

theorem Holds.reopen (h : s.Holds m) (capacity : Int) : (s.reopen capacity).Holds m where
  count := by
    have rows : (s.table.withLead s.layout.lead).length = m.size := by
      rw [h.withLead, h.rows, List.length_map, Std.ExtTreeMap.length_toList]
    exact rows
  rows := h.rows

theorem Holds.close (h : s.Holds m) : s.close.Holds m := ⟨h.count, h.rows⟩

/-- A store in the midst of its life: it holds a map, and it has the given capacity and is open or
closed as given. -/
structure Lives (s : Persistent) (limit : Int) (isOpen : Bool) : Prop where
  holds : ∃ m, s.Holds m
  capacity : s.capacity = limit
  isOpen : s.isOpen = isOpen

theorem Lives.perform {limit : Int} {isOpen : Bool} (h : s.Lives limit isOpen) (e : StoreEvent) :
    (s.perform e).Lives (e.limit limit) (e.leavesOpen isOpen) := by
  obtain ⟨m, holds⟩ := h.holds
  cases e with
  | call c =>
    rcases s.call_cases c with same | ⟨key, value, accepted⟩
    · rw [same]
      exact h
    · have next := holds.of_update accepted
      exact ⟨⟨_, next.1⟩, next.2.2.trans h.capacity, next.2.1.trans h.isOpen⟩
  | close => exact ⟨⟨m, holds.close⟩, h.capacity, rfl⟩
  | reopen capacity => exact ⟨⟨m, holds.reopen capacity⟩, rfl, rfl⟩

theorem Lives.after {limit : Int} {isOpen : Bool} (h : s.Lives limit isOpen)
    (history : List StoreEvent) :
    (s.after history).Lives (history.foldl StoreEvent.limit limit)
      (history.foldl StoreEvent.leavesOpen isOpen) := by
  induction history generalizing s limit isOpen with
  | nil => exact h
  | cons e history ih => exact ih (h.perform e)

/-- What an open store with entries `m` does when its capacity is `limit`. -/
structure Serves (s : Persistent) (limit : Int) (m : Std.ExtTreeMap UInt32 UInt32) : Prop where
  listed : ∀ count, s.range count = .ok (visited count m.toList)
  count : s.count = m.toList.length
  fetched : ∀ key value, m[key]? = some value → s.fetch key = .ok (value, s)
  updated : ∀ key ∈ m, ∀ value, ∃ s', s.update key value = .ok s' ∧
    s'.range none = .ok (m.insert key value).toList
  refused : ∀ key ∉ m, (s.fetch key = .error .full ↔ 0 < limit ∧ limit ≤ s.count) ∧
    ∀ value, s.update key value = .error .full ↔ 0 < limit ∧ limit ≤ s.count
  added : ∀ key ∉ m, ¬ (0 < limit ∧ limit ≤ s.count) →
    (∃ s', s.fetch key = .ok (0, s') ∧ s'.range none = .ok (m.insert key 0).toList) ∧
      ∀ value, ∃ s', s.update key value = .ok s' ∧ s'.range none = .ok (m.insert key value).toList
  /-- Whatever is tried on the closed store, the entries are there when it is opened again. -/
  survives : ∀ later capacity, (∀ e ∈ later, e.isReopen = false) →
    ((s.close.after later).reopen capacity).range none = .ok m.toList

theorem Holds.range (h : s.Holds m) (isOpen : s.isOpen = true) (count : Option Nat) :
    s.range count = .ok (visited count m.toList) := by
  simp [Persistent.range, h.listed isOpen, Except.map]

theorem Holds.serves (h : s.Holds m) (isOpen : s.isOpen = true) : s.Serves s.capacity m where
  listed := h.range isOpen
  count := by rw [h.count, Std.ExtTreeMap.length_toList]
  fetched key value found := h.fetch_of_present isOpen found
  updated key present value := by
    have accepted := h.update_of_present isOpen present value
    have next := h.of_update accepted
    exact ⟨_, accepted, next.1.range (next.2.1.trans isOpen) none⟩
  refused key missing := by
    have absent : m[key]? = none := (getElem?_eq_none_iff m key).mpr missing
    rw [h.fetch_of_absent isOpen absent]
    constructor
    · rcases h.insert_cases absent 0 with ⟨full, outcome⟩ | ⟨room, next, outcome, -⟩
      · simp [outcome, Except.map, full]
      · simp only [outcome, Except.map, reduceCtorEq, false_iff]
        exact room
    · intro value
      rw [h.update_of_absent isOpen absent]
      rcases h.insert_cases absent value with ⟨full, outcome⟩ | ⟨room, next, outcome, -⟩
      · simp [outcome, full]
      · simp only [outcome, reduceCtorEq, false_iff]
        exact room
  added key missing room := by
    have absent : m[key]? = none := (getElem?_eq_none_iff m key).mpr missing
    have accepted (value : UInt32) : ∃ s', s.insert key value = .ok s' ∧
        s'.range none = .ok (m.insert key value).toList := by
      rcases h.insert_cases absent value with ⟨full, -⟩ | ⟨-, next, outcome, holds, still, -⟩
      · exact absurd full room
      · exact ⟨next, outcome, holds.range (still.trans isOpen) none⟩
    constructor
    · obtain ⟨next, outcome, listed⟩ := accepted 0
      rw [h.fetch_of_absent isOpen absent, outcome]
      exact ⟨next, rfl, listed⟩
    · intro value
      rw [h.update_of_absent isOpen absent]
      exact accepted value
  survives later capacity stays := by
    rw [after_of_closed rfl stays]
    exact (h.close.reopen capacity).range rfl none

/-- Whatever happens to a store that was opened on an empty database, and whatever capacities it is
opened with: while it is open it serves a finite map that outlives its closing, and while it is
closed every call is refused and changes nothing. -/
theorem entries_survive (layout : Layout) (capacity : Int) (history : List StoreEvent) :
    let s := (openOn .empty layout capacity).after history
    s.isOpen = history.foldl StoreEvent.leavesOpen true ∧
      (s.isOpen = true → ∃ m, s.Serves (history.foldl StoreEvent.limit capacity) m) ∧
      (s.isOpen = false → (∀ key value, s.update key value = .error .closed) ∧
        (∀ key, s.fetch key = .error .closed) ∧ (∀ count, s.range count = .error .closed) ∧
        ∀ e : StoreEvent, e.isReopen = false → s.perform e = s) := by
  intro s
  have opened : (openOn .empty layout capacity).Lives capacity true :=
    ⟨⟨∅, holds_openOn_empty layout capacity⟩, rfl, rfl⟩
  have lives := opened.after history
  obtain ⟨m, holds⟩ := lives.holds
  refine ⟨lives.isOpen, fun isOpen => ⟨m, ?_⟩, fun closed => ?_⟩
  · rw [← lives.capacity]
    exact holds.serves isOpen
  · exact ⟨update_of_closed closed, fetch_of_closed closed, range_of_closed closed,
      fun _ => perform_of_closed closed⟩

def shrunk : List StoreEvent :=
  [.call (.update 256 7), .call (.fetch 1), .close, .call (.update 1 9), .close, .reopen 1]

theorem entries_survive_shrunk :
    let s := (openOn .empty .keyspace 2).after shrunk
    s.isOpen = true ∧ s.count = 2 ∧ s.range none = .ok [(1, 0), (256, 7)] ∧
      s.fetch 5 = .error .full ∧ s.fetch 256 = .ok (7, s) := by
  intro s
  have opened : s.isOpen = true := rfl
  obtain ⟨m, serves⟩ := (entries_survive .keyspace 2 shrunk).2.1 opened
  have all : s.range none = .ok [(1, 0), (256, 7)] := by decide
  have entries : m.toList = [(1, 0), (256, 7)] :=
    Except.ok.inj ((serves.listed none).symm.trans all)
  have there : m[(256 : UInt32)]? = some 7 := by
    rw [← EntryTable.mem_toList_iff m (256, 7), entries]
    decide
  have missing : (5 : UInt32) ∉ m := by
    intro present
    obtain ⟨value, found⟩ := Option.isSome_iff_exists.mp
      (Std.ExtTreeMap.isSome_getElem?_iff_mem.mpr present)
    rw [← EntryTable.mem_toList_iff m (5, value), entries] at found
    simp at found
  refine ⟨opened, rfl, all, (serves.refused 5 missing).1.mpr ?_, serves.fetched 256 7 there⟩
  exact ⟨by decide, by decide⟩

end Persistent

end BytecodeVm
