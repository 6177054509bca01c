import BytecodeVm.Cpu.Run

/-! Runs step by step. `Steps p start n s` says that the processor started in `start` is in
state `s` after `n` steps, before it looks at the next slot: these are the states at the top of
the loop. A run is such a sequence of steps and one more that ends it, so what every step keeps
holds wherever a run passes. -/
namespace BytecodeVm

theorem BranchBudget.consume_eq_some {b b' : BranchBudget} (h : b.consume = some b') :
    b'.limit = b.limit ∧ b'.consumed = b.consumed + 1 := by
  unfold consume at h
  split at h
  · cases h
  · cases h
    exact ⟨rfl, rfl⟩

namespace Cpu

inductive Steps (p : Program) (start : Cpu) : Nat → Cpu → Prop
  | zero : Steps p start 0 start
  | succ {n s s'} (steps : Steps p start n s) (step : s.step p = .next s') :
      Steps p start (n + 1) s'

theorem run_of_done {p : Program} {s t : Cpu} {outcome : Outcome}
    (h : s.step p = .done outcome t) : s.run p = (outcome, t) := by
  rw [run]
  split
  · rename_i h'
    cases h.symm.trans h'
    rfl
  · rename_i h'
    cases h.symm.trans h'

theorem run_of_next {p : Program} {s s' : Cpu} (h : s.step p = .next s') :
    s.run p = s'.run p := by
  rw [run]
  split
  · rename_i h'
    cases h.symm.trans h'
  · rename_i h'
    cases h.symm.trans h'
    rfl

theorem Steps.cons {p : Program} {s s' t : Cpu} {n : Nat} (first : s.step p = .next s')
    (rest : Steps p s' n t) : Steps p s (n + 1) t := by
  induction rest with
  | zero => exact .succ .zero first
  | succ _ step ih => exact .succ ih step

theorem Steps.run_eq {p : Program} {start s : Cpu} {n : Nat} (steps : Steps p start n s) :
    start.run p = s.run p := by
  induction steps with
  | zero => rfl
  | succ _ step ih => exact ih.trans (run_of_next step)

theorem Steps.invariant {p : Program} {start s : Cpu} {n : Nat} {P : Cpu → Prop}
    (steps : Steps p start n s) (initial : P start)
    (kept : ∀ s s', P s → s.step p = .next s' → P s') : P s := by
  induction steps with
  | zero => exact initial
  | succ _ step ih => exact kept _ _ ih step

theorem exists_steps_run (p : Program) (start : Cpu) :
    ∃ n s, Steps p start n s ∧ s.step p = .done (start.run p).1 (start.run p).2 := by
  -- by the measure that makes a run end
  induction start using run.induct p with
  | case1 start outcome t h =>
    refine ⟨0, start, .zero, ?_⟩
    rw [run_of_done h, h]
  | case2 start next h ih =>
    obtain ⟨n, s, steps, last⟩ := ih
    refine ⟨n + 1, s, steps.cons h, ?_⟩
    rw [run_of_next h, last]

section

-- a change of the world that stores and host functions can make, and that can be repeated
variable {p : Program} {R : World → World → Prop} (refl : ∀ w, R w w)
  (called : ∀ code handler, p.lookup code = some handler →
    ∀ (w : World) (a : Arguments), R w (handler w a).2)

include refl called

theorem world_of_stops {s t : Cpu} {i : Instruction} {outcome : Outcome}
    (h : Stops p s i outcome t) : R s.world t.world := by
  cases h with
  | callFailed _ found answer | callPanicked _ found answer =>
    have change := called _ _ found s.world s.arguments
    rwa [answer] at change
  | _ => exact refl _

variable (stored : ∀ (w : World) (memory : RegionTable) (addr : UInt64) (size : AccessSize)
  (v : UInt64), w.memory.store addr size.bytes v = .ok memory → R w { w with memory := memory })

include stored

theorem world_of_moves {s s' : Cpu} {i : Instruction} (h : Moves p s i s') :
    R s.world s'.world := by
  cases h with
  | computed | loaded | loadedWide | passed | jumped => exact refl _
  | stored _ written => exact stored _ _ _ _ _ written
  | called _ found answer =>
    have change := called _ _ found s.world s.arguments
    rwa [answer] at change

variable (trans : ∀ u v w, R u v → R v w → R u w)

include trans

theorem Steps.world {start s : Cpu} {n : Nat} (steps : Steps p start n s) :
    R start.world s.world := by
  refine steps.invariant (P := fun s => R start.world s.world) (refl _) fun s s' so_far step => ?_
  obtain ⟨i, -, moves⟩ := moves_of_step step
  exact trans _ _ _ so_far (world_of_moves refl called stored moves)

/-- Whatever every store and every host function does to the world at most, a whole run does at
most. -/
theorem world_run (start : Cpu) : R start.world (start.run p).2.world := by
  obtain ⟨n, s, steps, last⟩ := exists_steps_run p start
  have before := steps.world refl called stored trans
  rcases stops_of_step last with ⟨-, -, same⟩ | ⟨i, -, stops⟩
  · rwa [same]
  · exact trans _ _ _ before (world_of_stops refl called stops)

end

theorem limit_of_moves {p : Program} {s s' : Cpu} {i : Instruction} (h : Moves p s i s') :
    s'.budget.limit = s.budget.limit := by
  cases h with
  | jumped _ paid _ => exact (BranchBudget.consume_eq_some paid).1
  | _ => rfl

theorem limit_of_stops {p : Program} {s t : Cpu} {i : Instruction} {outcome : Outcome}
    (h : Stops p s i outcome t) : t.budget.limit = s.budget.limit := by
  cases h with
  | noSlot _ paid _ => exact (BranchBudget.consume_eq_some paid).1
  | _ => rfl

theorem limit_run (p : Program) (start : Cpu) :
    (start.run p).2.budget.limit = start.budget.limit := by
  obtain ⟨n, s, steps, last⟩ := exists_steps_run p start
  have before : s.budget.limit = start.budget.limit :=
    steps.invariant (P := fun s => s.budget.limit = start.budget.limit) rfl
      fun s s' so_far step => by
        obtain ⟨i, -, moves⟩ := moves_of_step step
        exact (limit_of_moves moves).trans so_far
  rcases stops_of_step last with ⟨-, -, same⟩ | ⟨i, -, stops⟩
  · rwa [same]
  · exact (limit_of_stops stops).trans before

end Cpu

end BytecodeVm
