import BytecodeVm.Proofs.Calls
import BytecodeVm.Syscall.Registry

/-! Sessions: an instance and the registry it looks its host functions up in, under any sequence of
operations on the two. What one operation keeps, a whole session keeps. -/
namespace BytecodeVm

/-- An operation on an instance or on the registry behind it. A touch is what the host does with its
own hands to the memory and the local store of the instance: a write, an update, a direct call of
one of its functions. -/
inductive Action
  | setup
  | destroy
  | verify
  | addRegion (r : Region)
  | execute (host : Surroundings) (r1 : UInt64)
  | executeContext (host : Surroundings) (argument : Bytes)
  | register (code : UInt32) (name : String) (handler : Option Handler)
  | touch (host : Surroundings) (change : World → World)

structure Session where
  inst : Instance
  registry : Registry

namespace Session

/-- Performs one operation. Apart from a run, one that fails changes nothing. -/
def perform (s : Session) : Action → Session
  | .setup => { s with inst := s.inst.setup.toOption.getD s.inst }
  | .destroy => { s with inst := s.inst.destroy }
  | .verify => { s with inst := (s.inst.verify s.registry.lookup).toOption.getD s.inst }
  | .addRegion r => { s with inst := (s.inst.addRegion r).toOption.getD s.inst }
  | .execute host r1 => { s with inst := (s.inst.execute s.registry.lookup host r1).inst }
  | .executeContext host argument =>
    { s with inst := (s.inst.executeContext s.registry.lookup host argument).inst }
  | .register code name handler =>
    { s with registry := (s.registry.register code name handler).toOption.getD s.registry }
  | .touch host change => { s with inst := s.inst.withWorld (change (s.inst.world host)) }

def after (s : Session) (actions : List Action) : Session := actions.foldl perform s

theorem after_induction {P : Session → Prop} {s : Session} {actions : List Action} (initial : P s)
    (kept : ∀ s, ∀ a ∈ actions, P s → P (s.perform a)) : P (s.after actions) := by
  induction actions generalizing s with
  | nil => exact initial
  | cons a rest ih =>
    refine ih (kept s a List.mem_cons_self initial) fun s b member => ?_
    exact kept s b (List.mem_cons_of_mem a member)

theorem after_append (s : Session) (before later : List Action) :
    s.after (before ++ later) = (s.after before).after later :=
  List.foldl_append

end Session

theorem getD_toOption_cases {ε α : Type} {P : α → Prop} {x : Except ε α} {a : α} (failed : P a)
    (done : ∀ b, x = .ok b → P b) : P (x.toOption.getD a) := by
  cases x with
  | error e => exact failed
  | ok b => exact done b rfl

namespace Registry

variable {r r' r'' : Registry} {code : UInt32} {name : String}

theorem mem_codes_iff : code ∈ r.codes ↔ ∃ s, r.find? code = some s := by
  rw [codes, List.mem_mergeSort, ← Option.isSome_iff_exists, find?, List.find?_isSome, List.mem_map]
  simp only [beq_iff_eq]

theorem register_eq_error_iff {handler : Option Handler} :
    (∃ e, r.register code name handler = .error e) ↔ handler = none ∨ code ∈ r.codes := by
  rw [mem_codes_iff]
  cases handler with
  | none => exact ⟨fun _ => .inl rfl, fun _ => ⟨_, rfl⟩⟩
  | some handler =>
    cases found : r.find? code with
    | none => simp [register, found]
    | some s => simp [register, found]

theorem find?_of_register {handler : Handler} (added : r.register code name (some handler) = .ok r')
    (c : UInt32) :
    r'.find? c = if c = code then some ⟨code, name, handler⟩ else r.find? c := by
  unfold register at added
  dsimp only at added
  split at added
  · cases added
  · rename_i free
    cases added
    rw [find?, List.find?_append]
    split
    · rename_i same
      subst same
      rw [show r.syscalls.find? (·.code == c) = none from free]
      simp
    · rename_i other
      rw [List.find?_singleton]
      simp [find?, Ne.symm other]

theorem lookup_of_register {handler : Option Handler}
    (added : r.register code name handler = .ok r') {c : UInt32} {f : Handler}
    (found : r'.lookup c = some f) : handler = some f ∨ r.lookup c = some f := by
  cases handler with
  | none => cases added
  | some handler =>
    rw [lookup, find?_of_register added] at found
    split at found
    · exact .inl found
    · exact .inr found

structure Extends (r r' : Registry) : Prop where
  codes : ∀ code ∈ r.codes, code ∈ r'.codes
  name : ∀ code name, r.name? code = some name → r'.name? code = some name
  lookup : ∀ code handler, r.lookup code = some handler → r'.lookup code = some handler

theorem Extends.refl (r : Registry) : r.Extends r :=
  ⟨fun _ => id, fun _ _ => id, fun _ _ => id⟩

theorem Extends.trans (h : r.Extends r') (h' : r'.Extends r'') : r.Extends r'' where
  codes code member := h'.codes code (h.codes code member)
  name code name named := h'.name code name (h.name code name named)
  lookup code handler found := h'.lookup code handler (h.lookup code handler found)

theorem extends_of_find? (h : ∀ code s, r.find? code = some s → r'.find? code = some s) :
    r.Extends r' where
  codes code member := by
    obtain ⟨s, found⟩ := mem_codes_iff.mp member
    exact mem_codes_iff.mpr ⟨s, h code s found⟩
  name code name named := by
    obtain ⟨s, found, rfl⟩ := Option.map_eq_some_iff.mp named
    rw [name?, h code s found, Option.map_some]
  lookup code handler answers := by
    obtain ⟨s, found, rfl⟩ := Option.map_eq_some_iff.mp answers
    rw [Registry.lookup, h code s found, Option.map_some]

theorem extends_of_register {handler : Option Handler}
    (added : r.register code name handler = .ok r') : r.Extends r' := by
  have accepted : ¬ ∃ e, r.register code name handler = .error e := by
    rintro ⟨e, refused⟩
    cases added.symm.trans refused
  rw [register_eq_error_iff, not_or] at accepted
  obtain ⟨present, free⟩ := accepted
  cases handler with
  | none => exact absurd rfl present
  | some handler =>
    refine extends_of_find? fun c s found => ?_
    rw [find?_of_register added, if_neg ?_, found]
    rintro rfl
    exact free (mem_codes_iff.mpr ⟨s, found⟩)

end Registry

theorem Session.extends_after (s : Session) (actions : List Action) :
    s.registry.Extends (s.after actions).registry := by
  refine after_induction (P := fun s' => s.registry.Extends s'.registry) (.refl _) ?_
  intro s' a _ so_far
  cases a with
  | register code name handler =>
    exact getD_toOption_cases (P := s.registry.Extends) so_far fun r added =>
      so_far.trans (Registry.extends_of_register added)
  | setup | destroy | verify | addRegion | execute | executeContext | touch => exact so_far

end BytecodeVm
