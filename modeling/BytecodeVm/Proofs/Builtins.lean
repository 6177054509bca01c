import BytecodeVm.Proofs.PrintfOutput
import BytecodeVm.Syscall.Registry

/-! What a built-in function can do, whatever it is called with. It rejects the call; it answers and
leaves the console alone; or it is printf, which writes less than the failure value counts or passes
on the error of the console. -/
namespace BytecodeVm

namespace Builtin

theorem ofNat_ne_failure {n : Nat} (small : n < 18446744073709551615) :
    UInt64.ofNat n ≠ failure := by
  intro same
  have value := congrArg UInt64.toNat same
  rw [UInt64.toNat_ofNat_of_lt' (by simp only [UInt64.size]; omega)] at value
  have failed : failure.toNat = 18446744073709551615 := rfl
  omega

theorem zero_ne_failure : (0 : UInt64) ≠ failure := ofNat_ne_failure (n := 0) (by omega)

inductive Effect (w : World) : Reply × World → Prop
  | rejected : Effect w (reject w)
  | answered {v : UInt64} {w' : World} (regular : v ≠ failure)
      (console : w'.host.console = w.host.console) : Effect w (.value v, w')
  | printed {out : List UInt8} {console : Console}
      (written : w.host.console.write out = .ok console)
      (short : out.length < 18446744073709551615) :
      Effect w (.value (UInt64.ofNat out.length), { w with host.console := console })
  | unprinted {out : List UInt8} {e : HostError} (refused : w.host.console.write out = .error e) :
      Effect w (.error (.output e), w)

theorem length_printf_lt {t : RegionTable} {addr : UInt64} {text out : List UInt8}
    {args : List UInt64} (format : CString.read t addr maxFormat = .ok text)
    (h : Printf.format t text args = .ok out) : out.length < 18446744073709551615 := by
  have short : text.length ≤ 256 := CString.length_readFrom_le format
  have limit : (256 : Nat) ≤ Printf.fieldLimit := by decide
  calc out.length ≤ text.length * Printf.fieldLimit := Printf.length_format_le (short.trans limit) h
    _ ≤ 256 * Printf.fieldLimit := Nat.mul_le_mul_right _ short
    _ < 18446744073709551615 := by decide

section

variable (w : World) (a : Arguments)

theorem effect_printf : Effect w (printf w a) := by
  unfold printf
  split
  · exact .rejected
  · rename_i text format
    split
    · exact .rejected
    · rename_i out formatted
      split
      · rename_i e refused
        exact .unprinted refused
      · rename_i console written
        exact .printed written (length_printf_lt format formatted)

theorem effect_memcpy : Effect w (memcpy w a) := by
  unfold memcpy
  split
  · exact .answered zero_ne_failure rfl
  · split
    · exact .rejected
    · split
      · exact .rejected
      · exact .answered zero_ne_failure rfl

theorem console_setStore (scope : StoreScope) (s : Store) :
    (w.setStore scope s).host.console = w.host.console := by
  cases scope <;> rfl

theorem effect_store (scope : StoreScope) : Effect w (store scope w a) := by
  unfold store
  split
  · exact .rejected
  · split
    · exact .rejected
    · exact .answered zero_ne_failure (console_setStore ..)

theorem effect_fetch (scope : StoreScope) : Effect w (fetch scope w a) := by
  unfold fetch
  split
  · exact .rejected
  · split
    · exact .rejected
    · split
      · exact .rejected
      · exact .answered zero_ne_failure (console_setStore ..)

theorem effect_nowMs : Effect w (nowMs w a) := by
  refine .answered (ofNat_ne_failure ?_) rfl
  have low : (w.host.clock.tdiv 1000000).emod 4294967296 < 4294967296 :=
    Int.emod_lt_of_pos _ (by decide)
  omega

theorem effect_hash (digest : Bytes → List UInt8) : Effect w (hash digest w a) := by
  unfold hash
  split
  · exact .rejected
  · split
    · exact .rejected
    · exact .answered zero_ne_failure rfl

end

end Builtin

theorem Registry.effect_standard {hashing : Bool} {code : UInt32} {handler : Handler}
    (found : (Registry.standard hashing).lookup code = some handler) (w : World) (a : Arguments) :
    Builtin.Effect w (handler w a) := by
  obtain ⟨s, member, rfl⟩ := Registry.mem_of_lookup found
  refine Registry.forall_mem_standard (P := fun handler => Builtin.Effect w (handler w a))
    ?_ ?_ ?_ ?_ ?_ ?_ ?_ hashing s member
  · exact Builtin.effect_printf w a
  · exact Builtin.effect_memcpy w a
  · exact Builtin.effect_store w a
  · exact Builtin.effect_fetch w a
  · exact Builtin.effect_nowMs w a
  · exact Builtin.effect_hash w a _
  · exact Builtin.effect_hash w a _

end BytecodeVm
