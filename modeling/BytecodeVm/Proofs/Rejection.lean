import BytecodeVm.Instance
import BytecodeVm.Proofs.Builtins

/-! Rejected calls. A built-in function that answers with the failure value has changed nothing:
neither memory nor a store nor the console. Each of them looks at all its arguments before it
changes anything, and none has the failure value as a regular answer; for printf that is so because
what it writes is limited. -/
namespace BytecodeVm

namespace Builtin

theorem Effect.eq_reject {w : World} {answer : Reply × World} (h : Effect w answer)
    (failed : answer.1 = .value failure) : answer = reject w := by
  cases h with
  | rejected => rfl
  | answered regular => exact absurd (Reply.value.inj failed) regular
  | printed _ short => exact absurd (Reply.value.inj failed) (ofNat_ne_failure short)
  | unprinted => cases failed

theorem fetch_of_unwritable {w : World} {a : Arguments} {e : MemoryError}
    (unwritable : w.memory.locate a.r2 4 .write = .error e) (scope : StoreScope) :
    fetch scope w a = reject w := by
  unfold fetch
  split
  · rfl
  · simp only [unwritable]

theorem fetch_of_refused {w : World} {a : Arguments} {scope : StoreScope} {s : Store}
    {e : StoreError} (present : w.store scope = some s)
    (refused : s.fetch a.r1.toUInt32 = .error e) : fetch scope w a = reject w := by
  simp only [fetch, present, refused]
  split <;> rfl

theorem printf_of_unreadable {w : World} {a : Arguments} {text : List UInt8} {addr : UInt64}
    {e : StringError} (format : CString.read w.memory a.r1 maxFormat = .ok text)
    (named : addr ∈ Printf.addresses (Printf.pieces text) [a.r2, a.r3, a.r4, a.r5])
    (unreadable : CString.read w.memory addr Printf.maxString = .error e) :
    printf w a = reject w := by
  obtain ⟨e', failed⟩ := (Printf.render_eq_error_iff w.memory _ _).mpr ⟨addr, named, e, unreadable⟩
  simp only [printf, format, Printf.format, failed]

end Builtin

namespace Instance

theorem withWorld_world (i : Instance) (host : Surroundings) : i.withWorld (i.world host) = i := by
  obtain ⟨image, config, body, budget, state, verified⟩ := i
  cases body <;> rfl

theorem invoke_of_unchanged {i : Instance} {host : Surroundings} {handler : Handler} {a : Arguments}
    {reply : Reply} (h : handler (i.world host) a = (reply, i.world host)) :
    i.invoke host handler a = (reply, i, host) := by
  simp only [invoke, h, withWorld_world]
  rfl

end Instance

/-- A built-in function that answers with the failure value leaves instance and host as they were.
So it is when the address that a fetch would write to cannot be written, whatever the store has to
say; when the store refuses, whatever the address; and when any one of the strings of a printf
cannot be read, however many were read before it. -/
theorem Instance.rejected_calls_change_nothing (i : Instance) (host : Surroundings)
    (a : Arguments) :
    (∀ hashing code handler, (Registry.standard hashing).lookup code = some handler →
      (i.invoke host handler a).1 = .value Builtin.failure →
        i.invoke host handler a = (.value Builtin.failure, i, host)) ∧
      (∀ scope e, i.memory.locate a.r2 4 .write = .error e →
        i.invoke host (Builtin.fetch scope) a = (.value Builtin.failure, i, host)) ∧
      (∀ scope s e, (i.world host).store scope = some s → s.fetch a.r1.toUInt32 = .error e →
        i.invoke host (Builtin.fetch scope) a = (.value Builtin.failure, i, host)) ∧
      ∀ text (k : Nat) addr e, CString.read i.memory a.r1 Builtin.maxFormat = .ok text →
        (Printf.addresses (Printf.pieces text) [a.r2, a.r3, a.r4, a.r5])[k]? = some addr →
        CString.read i.memory addr Printf.maxString = .error e →
        i.invoke host Builtin.printf a = (.value Builtin.failure, i, host) := by
  refine ⟨?_, ?_, ?_, ?_⟩
  · intro hashing code handler found failed
    exact invoke_of_unchanged ((Registry.effect_standard found (i.world host) a).eq_reject failed)
  · intro scope e unwritable
    exact invoke_of_unchanged
      (Builtin.fetch_of_unwritable (w := i.world host) unwritable scope)
  · intro scope s e present refused
    exact invoke_of_unchanged (Builtin.fetch_of_refused present refused)
  · intro text k addr e format named unreadable
    exact invoke_of_unchanged
      (Builtin.printf_of_unreadable format (List.mem_of_getElem? named) unreadable)

def twoStrings : Instance where
  image := none
  config := .standard
  body := .live (.fresh (Bytes.zeros 8) (Bytes.zeros 0) (Bytes.ofList [37, 115, 37, 115, 0]))
    (.inMemory 4)
  budget := .ofLimit 1
  state := .init
  verified := false

def fullHost : Surroundings where
  globals := .volatile ⟨1, [(5, 7)]⟩
  console := .silent
  clock := 0

theorem rejected_calls_of_twoStrings :
    ((Registry.standard true).lookup 0x12 = some (Builtin.fetch .process) ∧
      fullHost.globals.fetch 9 = .error .full ∧
      twoStrings.invoke fullHost (Builtin.fetch .process) ⟨9, RegionTable.stackBase, 0, 0, 0⟩ =
        (.value Builtin.failure, twoStrings, fullHost)) ∧
      (CString.read twoStrings.memory RegionTable.rodataBase Builtin.maxFormat =
          .ok [37, 115, 37, 115] ∧
        CString.read twoStrings.memory 0 Printf.maxString = .error (.memory (.unmapped 0 1)) ∧
        twoStrings.invoke fullHost Builtin.printf
            ⟨RegionTable.rodataBase, RegionTable.rodataBase, 0, 0, 0⟩ =
          (.value Builtin.failure, twoStrings, fullHost)) := by
  have fetching := Instance.rejected_calls_change_nothing twoStrings fullHost
    ⟨9, RegionTable.stackBase, 0, 0, 0⟩
  have printing := Instance.rejected_calls_change_nothing twoStrings fullHost
    ⟨RegionTable.rodataBase, RegionTable.rodataBase, 0, 0, 0⟩
  refine ⟨⟨rfl, rfl, fetching.1 true 0x12 _ rfl rfl⟩, rfl, rfl, ?_⟩
  exact printing.2.2.2 _ 1 0 _ rfl (by cbv) rfl

end BytecodeVm
