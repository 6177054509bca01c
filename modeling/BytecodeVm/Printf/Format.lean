import BytecodeVm.Region
import BytecodeVm.Printf.Field

/-! printf: a format with its arguments as bytes. Every argument is a 64-bit value; the
argument of a string verb is an address in program memory. Arguments that are missing
read as zero. -/
namespace BytecodeVm.Printf

def maxString : Nat := 256

def next : List UInt64 → UInt64 × List UInt64
  | [] => (0, [])
  | a :: rest => (a, rest)

def int32 (a : UInt64) : Int := a.toUInt32.toInt32.toInt

/-- The greatest number that may still be followed by a digit. -/
def maxNumber : Nat := 1000000

def tooLarge (n : Nat) : Bool := decide (maxNumber < n / 10)

structure Plan where
  field : Field
  refused : Bool

def flagsField (flags : List UInt8) : Field where
  left := flags.contains (ascii '-')
  plus := flags.contains (ascii '+')
  space := flags.contains (ascii ' ')
  alternate := flags.contains (ascii '#')
  zero := flags.contains (ascii '0')
  width := none
  precision := none

def decimalValue (ds : List UInt8) : Nat := Numeral.value 10 (ds.map fun d => d.toNat - 48)

/-- A width given as a number: a negative one aligns to the left, and a zero is the flag. -/
def withWidth (f : Field) (w : Int) : Plan :=
  if w = 0 then ⟨{ f with zero := true }, false⟩
  else ⟨{ f with left := f.left || decide (w < 0), width := some w.natAbs }, tooLarge w.natAbs⟩

def planWidth (f : Field) (count : Count) (args : List UInt64) : Plan × List UInt64 :=
  match count with
  | .digits [] => (⟨f, false⟩, args)
  | .digits ds => (withWidth f (decimalValue ds), args)
  | .star =>
    let (a, args) := next args
    (withWidth f (int32 a), args)

def withPrecision (p : Plan) (n : Nat) : Plan :=
  ⟨{ p.field with precision := some n }, p.refused || tooLarge n⟩

/-- A negative precision counts as left out. -/
def planPrecision (p : Plan) (count : Option Count) (args : List UInt64) : Plan × List UInt64 :=
  match count with
  | none => (p, args)
  | some (.digits ds) => (withPrecision p (decimalValue ds), args)
  | some .star =>
    let (a, args) := next args
    if int32 a < 0 then (p, args) else (withPrecision p (int32 a).toNat, args)

def plan (d : Directive) (args : List UInt64) : Plan × List UInt64 :=
  let (p, args) := planWidth (flagsField d.flags) d.width args
  planPrecision p d.precision args

def bits (modifiers : List UInt8) : Nat :=
  modifiers.foldl
    (fun bits b => if b = ascii 'h' then (if bits = 16 then 8 else 16) else 64) 32

def unsigned (bits : Nat) (a : UInt64) : Nat :=
  match bits with
  | 8 => a.toUInt8.toNat
  | 16 => a.toUInt16.toNat
  | 32 => a.toUInt32.toNat
  | _ => a.toNat

def signed (bits : Nat) (a : UInt64) : Int :=
  match bits with
  | 8 => a.toInt64.toInt8.toInt
  | 16 => a.toInt64.toInt16.toInt
  | 32 => a.toInt64.toInt32.toInt
  | _ => a.toInt64.toInt

/-- What stands in place of a value whose field has a number that was refused. -/
def refusal (kind : String) (value : List UInt8) : List UInt8 :=
  Field.bytes ("%!(NOVERB)%!(EXTRA " ++ kind ++ "=") ++ value ++ Field.bytes ")"

def showSigned (p : Plan) (value : Int) : List UInt8 :=
  if p.refused then refusal "int64" (Field.bytes (Numeral.signed value))
  else p.field.number .decimal (decide (value < 0)) value.natAbs

def showUnsigned (p : Plan) (base : Field.Base) (value : Nat) : List UInt8 :=
  if p.refused then refusal "uint64" (Field.bytes (Numeral.decimal value))
  else p.field.number base false value

def showChar (p : Plan) (value : UInt8) : List UInt8 :=
  if p.refused then refusal "int32" (Field.bytes (Numeral.decimal value.toNat))
  else p.field.char value

def showText (p : Plan) (value : List UInt8) : List UInt8 :=
  if p.refused then refusal "string" value else p.field.text value

/-- The bytes that a directive stands for, and the arguments left after it. A verb that is
not known is copied with its directive. -/
def expand (t : RegionTable) (d : Directive) (written : List UInt8) (args : List UInt64) :
    Except StringError (List UInt8 × List UInt64) :=
  let (p, args) := plan d args
  let (a, rest) := next args
  let bits := bits d.modifiers
  if d.verb = ascii '%' then .ok ([ascii '%'], args)
  else if d.verb = ascii 'd' ∨ d.verb = ascii 'i' then .ok (showSigned p (signed bits a), rest)
  else if d.verb = ascii 'u' then .ok (showUnsigned p .decimal (unsigned bits a), rest)
  else if d.verb = ascii 'x' then .ok (showUnsigned p .hexLower (unsigned bits a), rest)
  else if d.verb = ascii 'X' then .ok (showUnsigned p .hexUpper (unsigned bits a), rest)
  else if d.verb = ascii 'o' then .ok (showUnsigned p .octal (unsigned bits a), rest)
  else if d.verb = ascii 'c' then .ok (showChar p a.toUInt8, rest)
  else if d.verb = ascii 's' then
    (CString.read t a maxString).map fun s => (showText p s, rest)
  else if d.verb = ascii 'p' then .ok (Field.bytes ("0x" ++ Numeral.hex a.toNat), rest)
  else .ok (written, args)

def render (t : RegionTable) : List Piece → List UInt64 → Except StringError (List UInt8)
  | [], _ => .ok []
  | .literal b :: rest, args => (render t rest args).map (b :: ·)
  | .unfinished written :: rest, args => (render t rest args).map (written ++ ·)
  | .directive d written :: rest, args => do
    let (out, args) ← expand t d written args
    let more ← render t rest args
    return out ++ more

def format (t : RegionTable) (text : List UInt8) (args : List UInt64) :
    Except StringError (List UInt8) :=
  render t (pieces text) args

end BytecodeVm.Printf
