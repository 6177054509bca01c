import BytecodeVm.Bytes
import BytecodeVm.Fault
import BytecodeVm.Text.Printable

/-! Digests: the 32-byte content hash that names a container, with its base58 text. That is the
bytes as one number, most significant first, in base 58; a leading zero byte is written as a leading
first digit. -/
namespace BytecodeVm

namespace Base58

def alphabet : List Char :=
  "123456789ABCDEFGHJKLMNPQRSTUVWXYZabcdefghijkmnopqrstuvwxyz".toList

def digitChar (d : Nat) : Char := alphabet.getD d '1'

def digitOf? (c : Char) : Option Nat := alphabet.idxOf? c

inductive Error
  | empty
  | notAscii
  | invalidDigit (c : Char)
deriving DecidableEq

def encode (bytes : List UInt8) : String :=
  let zeros := (bytes.takeWhile (· = 0)).length
  let n := Numeral.value 256 (bytes.map (·.toNat))
  String.ofList (List.replicate zeros '1' ++ (Numeral.positional 58 n).map digitChar)

def digits : List UInt8 → Except Error (List Nat)
  | [] => .ok []
  | b :: rest =>
    if 127 < b then .error .notAscii
    else match digitOf? (Char.ofNat b.toNat) with
      | none => .error (.invalidDigit (Char.ofNat b.toNat))
      | some d => (digits rest).map (d :: ·)

def decode (text : Bytes) : Except Error (List UInt8) :=
  let text := text.toList
  if text.isEmpty then .error .empty
  else do
    let ds ← digits text
    let zeros := (text.takeWhile (· = '1'.toUInt8)).length
    let bytes := Numeral.positional 256 (Numeral.value 58 ds)
    return List.replicate zeros 0 ++ bytes.map Nat.toUInt8

end Base58

structure Digest where
  bytes : Vector UInt8 32
deriving DecidableEq

inductive DigestError
  | base58 (e : Base58.Error)
  | length
deriving DecidableEq

def Base58.Error.message : Base58.Error → String
  | .empty => "zero length string"
  | .notAscii => "high-bit set on invalid digit"
  | .invalidDigit c => "invalid base58 digit (" ++ Quoted.char c ++ ")"

def DigestError.message : DigestError → String
  | .base58 e => "base58 decode: " ++ e.message
  | .length => "invalid digest: must be 32 bytes"

instance : Failure DigestError := { message := DigestError.message }

namespace Digest

def size : Nat := 32

def ofBytes (bytes : List UInt8) : Except DigestError Digest :=
  if h : bytes.length = 32 then .ok ⟨⟨bytes.toArray, by simpa using h⟩⟩
  else .error .length

def toList (d : Digest) : List UInt8 := d.bytes.toList

def text (d : Digest) : String := Base58.encode d.toList

def hex (d : Digest) : String := Numeral.hexBytes d.toList

def ofText (s : Bytes) : Except DigestError Digest :=
  match Base58.decode s with
  | .error e => .error (.base58 e)
  | .ok bytes => ofBytes bytes

/-- Reads a text into a digest that is already there; it stays as it was when the text
is no digest. -/
def assign (d : Digest) (s : Bytes) : Option DigestError × Digest :=
  match ofText s with
  | .ok new => (none, new)
  | .error e => (some e, d)

def filled (b : UInt8) : Digest := ⟨Vector.replicate 32 b⟩

def isZero (d : Digest) : Bool := d == filled 0

end Digest

end BytecodeVm
