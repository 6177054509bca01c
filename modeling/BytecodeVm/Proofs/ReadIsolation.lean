import BytecodeVm.Proofs.Simulation
import BytecodeVm.Proofs.WriteIsolation

/-! Read isolation: what a call does and answers does not depend on bytes in regions that do not
grant reading. Two memories that agree on the readable regions resolve and read alike; so do the
strings and formats made from them, the built-in functions and, since these are all that a program
uses, a whole call. -/
namespace BytecodeVm

def Permission.readable (p : Permission) : Bool := p.allows .read

namespace RegionTable

variable {t t' : RegionTable}

theorem Agrees.read (h : t.Agrees Permission.readable t') (addr size : UInt64) :
    t.read addr size = t'.read addr size := by
  rw [RegionTable.read, RegionTable.read, resolve, resolve, h.locate]
  cases located : t'.locate addr size .read with
  | error e => rfl
  | ok place =>
    obtain ⟨r', grants⟩ := grants_of_locate located
    have region := h.region place.index
    rw [grants.found, Option.getD_some] at region
    have readable : ((t.get? place.index).getD .blank).permission.readable = true := by
      rw [region.permission]
      exact grants.granted
    simp only [bind, Except.bind, grants.found, Option.getD_some, region.bytes readable]

theorem Agrees.load (h : t.Agrees Permission.readable t') (addr : UInt64) (size : Nat) :
    t.load addr size = t'.load addr size := by
  rw [RegionTable.load, RegionTable.load, h.read]

theorem Agrees.write {fixed : Permission → Bool} (h : t.Agrees fixed t') (addr : UInt64)
    (bytes : Bytes) :
    (∃ e, t.write addr bytes = .error e ∧ t'.write addr bytes = .error e) ∨
      ∃ u u', t.write addr bytes = .ok u ∧ t'.write addr bytes = .ok u' ∧ u.Agrees fixed u' := by
  rw [RegionTable.write, RegionTable.write, h.locate]
  cases t'.locate addr (UInt64.ofNat bytes.size) .write with
  | error e => exact .inl ⟨e, rfl, rfl⟩
  | ok place => exact .inr ⟨_, _, rfl, rfl, h.put place bytes⟩

theorem Agrees.readFrom (h : t.Agrees Permission.readable t') (addr : UInt64) (left i : Nat) :
    CString.readFrom t addr left i = CString.readFrom t' addr left i := by
  induction left generalizing i with
  | zero => rfl
  | succ left ih => rw [CString.readFrom, CString.readFrom, h.load, ih]

theorem Agrees.readString (h : t.Agrees Permission.readable t') (addr : UInt64) (max : Nat) :
    CString.read t addr max = CString.read t' addr max :=
  h.readFrom addr max 0

theorem Agrees.render (h : t.Agrees Permission.readable t') (pieces : List Printf.Piece)
    (args : List UInt64) : Printf.render t pieces args = Printf.render t' pieces args := by
  induction pieces generalizing args with
  | nil => rfl
  | cons piece rest ih =>
    cases piece with
    | literal b => rw [Printf.render, Printf.render, ih]
    | unfinished written => rw [Printf.render, Printf.render, ih]
    | directive d written =>
      have expanded : Printf.expand t d written args = Printf.expand t' d written args := by
        simp only [Printf.expand, h.readString]
      simp only [Printf.render, expanded, ih]

theorem Agrees.format (h : t.Agrees Permission.readable t') (text : List UInt8)
    (args : List UInt64) : Printf.format t text args = Printf.format t' text args :=
  h.render _ args

end RegionTable

/-- Worlds that differ at most in bytes that cannot be read. -/
structure World.Alike (w w' : World) : Prop where
  memory : w.memory.Agrees Permission.readable w'.memory
  locals : w.locals = w'.locals
  host : w.host = w'.host

structure SameAnswer (r r' : Reply × World) : Prop where
  reply : r.1 = r'.1
  world : r.2.Alike r'.2

/-- The host function cannot tell worlds apart that are alike. -/
def Indifferent (handler : Handler) : Prop :=
  ∀ (w w' : World) (a : Arguments), w.Alike w' → SameAnswer (handler w a) (handler w' a)

theorem World.Alike.store {w w' : World} (h : w.Alike w') (scope : StoreScope) :
    w.store scope = w'.store scope := by
  cases scope with
  | perInstance => exact h.locals
  | process => exact congrArg (some ·.globals) h.host

theorem World.Alike.setStore {w w' : World} (h : w.Alike w') (scope : StoreScope) (s : Store) :
    (w.setStore scope s).Alike (w'.setStore scope s) := by
  cases scope with
  | perInstance => exact ⟨h.memory, rfl, h.host⟩
  | process => exact ⟨h.memory, h.locals, congrArg ({ · with globals := s }) h.host⟩

namespace Builtin

theorem sameAnswer_reject {w w' : World} (h : w.Alike w') : SameAnswer (reject w) (reject w') :=
  ⟨rfl, h⟩

theorem indifferent_printf : Indifferent printf := by
  intro w w' a h
  unfold printf
  rw [h.memory.readString]
  split
  · exact sameAnswer_reject h
  · rw [h.memory.format]
    split
    · exact sameAnswer_reject h
    · rw [h.host]
      split
      · exact ⟨rfl, h⟩
      · exact ⟨rfl, h.memory, h.locals, rfl⟩

theorem indifferent_memcpy : Indifferent memcpy := by
  intro w w' a h
  unfold memcpy
  split
  · exact ⟨rfl, h⟩
  · rw [h.memory.locate, h.memory.read]
    split
    · exact sameAnswer_reject h
    · rename_i place _
      split
      · exact sameAnswer_reject h
      · rename_i bytes _
        exact ⟨rfl, h.memory.put place bytes, h.locals, h.host⟩

theorem indifferent_store (scope : StoreScope) : Indifferent (store scope) := by
  intro w w' a h
  unfold store
  rw [h.store]
  split
  · exact sameAnswer_reject h
  · split
    · exact sameAnswer_reject h
    · exact ⟨rfl, h.setStore scope _⟩

theorem indifferent_fetch (scope : StoreScope) : Indifferent (fetch scope) := by
  intro w w' a h
  unfold fetch
  rw [h.store, h.memory.locate]
  split
  · exact sameAnswer_reject h
  · split
    · exact sameAnswer_reject h
    · rename_i place _
      split
      · exact sameAnswer_reject h
      · rename_i s _
        have stored := h.setStore scope s
        exact ⟨rfl, h.memory.put place _, stored.locals, stored.host⟩

theorem indifferent_nowMs : Indifferent nowMs := by
  intro w w' a h
  unfold nowMs
  rw [h.host]
  exact ⟨rfl, h⟩

theorem indifferent_hash (digest : Bytes → List UInt8) : Indifferent (hash digest) := by
  intro w w' a h
  unfold hash
  rw [h.memory.read, h.memory.locate]
  split
  · exact sameAnswer_reject h
  · split
    · exact sameAnswer_reject h
    · rename_i place _
      exact ⟨rfl, h.memory.put place _, h.locals, h.host⟩

end Builtin

theorem Registry.indifferent_standard (hashing : Bool) (code : UInt32) (handler : Handler)
    (found : (Registry.standard hashing).lookup code = some handler) : Indifferent handler := by
  obtain ⟨s, member, rfl⟩ := Registry.mem_of_lookup found
  exact Registry.forall_mem_standard Builtin.indifferent_printf Builtin.indifferent_memcpy
    Builtin.indifferent_store Builtin.indifferent_fetch Builtin.indifferent_nowMs
    (Builtin.indifferent_hash _) (Builtin.indifferent_hash _) hashing s member

theorem World.alike_bisimulation {lookup : Lookup}
    (indifferent : ∀ code handler, lookup code = some handler → Indifferent handler) :
    World.Bisimulation lookup World.Alike where
  load h addr size := h.memory.load addr size
  write := by
    intro w w' h addr bytes
    rcases h.memory.write addr bytes with refused | ⟨u, u', written, written', agrees⟩
    · exact .inl refused
    · exact .inr ⟨u, u', written, written', agrees, h.locals, h.host⟩
  call := by
    intro code handler found w w' h a
    have same := indifferent _ _ found _ _ a h
    exact ⟨same.reply, same.world⟩

inductive Body.Alike : Body → Body → Prop
  | live {memory memory' : RegionTable} (locals : Store)
      (h : memory.Agrees Permission.readable memory') :
      Alike (.live memory locals) (.live memory' locals)

structure Instance.Alike (i j : Instance) : Prop where
  image : i.image = j.image
  config : i.config = j.config
  body : i.body.Alike j.body
  budget : i.budget = j.budget
  state : i.state = j.state
  verified : i.verified = j.verified

structure Execution.Alike (e e' : Execution) : Prop where
  result : e.result = e'.result
  host : e.host = e'.host
  argument : e.argument = e'.argument
  inst : e.inst.Alike e'.inst

namespace Instance

variable {i j : Instance} {memory memory' : RegionTable} {locals : Store}

theorem Alike.exists_bodies (h : i.Alike j) :
    ∃ memory memory' locals, i.body = .live memory locals ∧
      j = { i with body := .live memory' locals } ∧ memory.Agrees Permission.readable memory' := by
  cases i
  cases j
  obtain ⟨rfl, rfl, ⟨locals, agrees⟩, rfl, rfl, rfl⟩ := h
  exact ⟨_, _, locals, rfl, rfl, agrees⟩

theorem alike_live (live : i.body = .live memory locals)
    (h : memory.Agrees Permission.readable memory') :
    i.Alike { i with body := .live memory' locals } :=
  ⟨rfl, rfl, live ▸ .live locals h, rfl, rfl, rfl⟩

theorem boot_live (live : i.body = .live memory locals)
    (size : memory.stack.bytes.size = memory'.stack.bytes.size)
    (host : Surroundings) (r1 : UInt64) :
    { i with body := .live memory' locals }.boot host r1 =
      { i.boot host r1 with world := ⟨memory', some locals, host⟩ } := by
  simp only [boot, stack, live, size]
  rfl

structure SameEnd (r r' : Except RunError Int64 × Instance × Surroundings) : Prop where
  result : r.1 = r'.1
  inst : r.2.1.Alike r'.2.1
  host : r.2.2 = r'.2.2

theorem sameEnd_settle (live : i.body = .live memory locals) (outcome : Outcome) {s : Cpu}
    {w : World} (h : s.world.Alike w) :
    SameEnd (i.settle outcome s)
      ({ i with body := .live memory' locals }.settle outcome { s with world := w }) := by
  have body : (Body.live s.world.memory (s.world.locals.getD locals)).Alike
      (.live w.memory (w.locals.getD locals)) := by
    rw [h.locals]
    exact .live _ h.memory
  cases outcome <;> simp only [settle, withWorld, live] <;>
    exact ⟨rfl, ⟨rfl, rfl, body, rfl, rfl, rfl⟩, h.host⟩

theorem sameEnd_ready {lookup : Lookup}
    (indifferent : ∀ code handler, lookup code = some handler → Indifferent handler)
    (live : i.body = .live memory locals) (agrees : memory.Agrees Permission.readable memory')
    (text : Bytes) (host : Surroundings) (r1 : UInt64) :
    let j := { i with body := .live memory' locals }
    let ended := (i.boot host r1).run (.ofText text lookup)
    let ended' := (j.boot host r1).run (.ofText text lookup)
    SameEnd (i.settle ended.1 ended.2) (j.settle ended'.1 ended'.2) := by
  intro j ended ended'
  have start : (i.boot host r1).world.Alike ⟨memory', some locals, host⟩ := by
    refine ⟨?_, ?_, rfl⟩
    · simpa only [boot, world, memory_of_live live] using agrees
    · simp only [boot, world, Instance.locals, live]
  obtain ⟨w, other, alike⟩ := Cpu.related_run (p := .ofText text lookup)
    (World.alike_bisimulation indifferent) _ start
  have same : ended' = (ended.1, { ended.2 with world := w }) := by
    rw [← other, ← boot_live live agrees.stack.size]
  rw [same]
  exact sameEnd_settle live _ alike

theorem sameEnd_run {lookup : Lookup}
    (indifferent : ∀ code handler, lookup code = some handler → Indifferent handler)
    (h : i.Alike j) (host : Surroundings) (r1 : UInt64) :
    SameEnd (i.run lookup host r1) (j.run lookup host r1) := by
  obtain ⟨memory, memory', locals, live, rfl, agrees⟩ := h.exists_bodies
  have verified := verify_body { i with state := .init } (.live memory' locals) lookup
  unfold run
  dsimp only at verified ⊢
  rw [verified]
  cases accepted : { i with state := .init }.verify lookup with
  | error e => exact ⟨rfl, alike_live live agrees, rfl⟩
  | ok k =>
    have live' : k.body = .live memory locals := by rw [eq_of_verify accepted, ← live]
    simp only [Except.map]
    split
    · exact ⟨rfl, alike_live live' agrees, rfl⟩
    · rename_i image loaded
      exact sameEnd_ready (i := { k with state := .running }) indifferent live' agrees image.text
        host r1

theorem Alike.mapArgument (h : i.Alike j) (bytes : Bytes) :
    (i.mapArgument bytes).Alike (j.mapArgument bytes) := by
  obtain ⟨memory, memory', locals, live, rfl, agrees⟩ := h.exists_bodies
  simp only [Instance.mapArgument, live]
  refine ⟨rfl, rfl, .live _ { agrees with argument := ?_ }, rfl, rfl, rfl⟩
  exact { agrees.argument with size := rfl, bytes := fun _ => rfl }

theorem Alike.openedArgument (h : i.Alike j) (bytes : Bytes) :
    (i.mapArgument bytes).openArgument.Alike (j.mapArgument bytes).openArgument := by
  obtain ⟨memory, memory', locals, live, rfl, agrees⟩ := h.exists_bodies
  simp only [Instance.mapArgument, Instance.openArgument, live]
  refine ⟨rfl, rfl, .live _ { agrees with argument := ?_ }, rfl, rfl, rfl⟩
  exact { agrees.argument with permission := rfl, size := rfl, bytes := fun _ => rfl }

theorem Alike.isSetUp (h : i.Alike j) : i.isSetUp = true ∧ j.isSetUp = true := by
  obtain ⟨memory, memory', locals, live, rfl, -⟩ := h.exists_bodies
  simp only [Instance.isSetUp, live, and_self]

theorem Alike.agrees_memory (h : i.Alike j) : i.memory.Agrees Permission.readable j.memory := by
  obtain ⟨memory, memory', locals, live, rfl, agrees⟩ := h.exists_bodies
  rw [memory_of_live live]
  exact agrees

section

variable {lookup : Lookup}
  (indifferent : ∀ code handler, lookup code = some handler → Indifferent handler)
  (h : i.Alike j) (host : Surroundings)

include h indifferent

theorem alike_execute (r1 : UInt64) :
    (i.execute lookup host r1).Alike (j.execute lookup host r1) := by
  obtain ⟨setUp, setUp'⟩ := h.isSetUp
  simp only [execute, setUp, setUp']
  have same := sameEnd_run indifferent (h.mapArgument (Bytes.zeros 0)) host r1
  exact ⟨same.result, same.host, rfl, same.inst⟩

theorem alike_executeContext
    (quiet : ∀ code handler, lookup code = some handler → KeepsUnwritable handler)
    (argument : Bytes) :
    (i.executeContext lookup host argument).Alike (j.executeContext lookup host argument) := by
  obtain ⟨setUp, setUp'⟩ := h.isSetUp
  simp only [executeContext, setUp, setUp']
  have same := sameEnd_run indifferent (h.openedArgument argument) host RegionTable.argumentBase
  refine ⟨same.result, same.host, ?_, same.inst.mapArgument _⟩
  -- the argument can be read all through the run, so both runs leave the same bytes in it
  obtain ⟨memory, -, locals, live, -, -⟩ := h.exists_bodies
  obtain ⟨-, memory', locals', live', kept⟩ :=
    run_of_live (fun _ => id) quiet (body_openArgument (body_mapArgument live argument)) host
      RegionTable.argumentBase
  have readable : Permission.readWrite.readable = true := by decide
  refine same.inst.agrees_memory.argument.bytes ?_
  rw [memory_of_live live', ← kept.argument.permission]
  exact readable

end

/-- Calls of instances that differ at most in bytes that cannot be read have the same result,
host and argument, and leave instances that differ at most in such bytes. -/
theorem read_isolation (hashing : Bool) (h : i.Alike j) (host : Surroundings) :
    (∀ r1, (i.execute (Registry.standard hashing).lookup host r1).Alike
        (j.execute (Registry.standard hashing).lookup host r1)) ∧
      ∀ argument, (i.executeContext (Registry.standard hashing).lookup host argument).Alike
        (j.executeContext (Registry.standard hashing).lookup host argument) := by
  have indifferent := Registry.indifferent_standard hashing
  have quiet := (Registry.onlyBuiltinsWrite_standard hashing).lookup
  constructor
  · intro r1
    exact alike_execute indifferent h host r1
  · intro argument
    exact alike_executeContext indifferent h host quiet argument

end Instance

/-- Writes to a region of the host's, then tries to read from it. -/
def secretLoad : Container :=
  ContainerSpec.container ⟨1, 0, Bytes.zeros 0, 0, Bytes.zeros 0,
    Text.assemble [0x0000000000000118, 0x0000000500000000, 0x000000070000017a,
      0x0000000000001079, 0x0000000000000095], 0⟩

def keeping (secret : Bytes) : Instance :=
  let i := Instance.create (some secretLoad) none .standard
  let memory := RegionTable.fresh i.stack (Instance.initialData secretLoad) secretLoad.rodata
  { i with
    body := .live { memory with extensions := [⟨"secret", 0x500000000, secret, .write⟩] }
      (.inMemory i.config.localCapacity) }

theorem read_isolation_keeping :
    let secret := Bytes.ofList [1, 2, 3, 4, 5, 6, 7, 8]
    let secret' := Bytes.zeros 8
    let host : Surroundings := ⟨.inMemory 16, .silent, 0⟩
    Bytes.toList secret ≠ Bytes.toList secret' ∧ (keeping secret).Alike (keeping secret') ∧
      ((keeping secret).execute (Registry.standard true).lookup host 7).Alike
        ((keeping secret').execute (Registry.standard true).lookup host 7) := by
  intro secret secret' host
  have differ : Bytes.toList secret ≠ Bytes.toList secret' := by decide
  have hidden : Permission.write.readable = false := by decide
  have alike : (keeping secret).Alike (keeping secret') := by
    refine ⟨rfl, rfl, .live _ ⟨.refl _, .refl _, .refl _, ?_, .refl _⟩, rfl, rfl, rfl⟩
    refine .cons ⟨rfl, rfl, rfl, rfl, ?_⟩ .nil
    intro readable
    cases hidden.symm.trans readable
  exact ⟨differ, alike, (Instance.read_isolation true alike host).1 7⟩

end BytecodeVm
