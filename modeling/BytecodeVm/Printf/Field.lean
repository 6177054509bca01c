import BytecodeVm.Text.Numeral
import BytecodeVm.Printf.Directive

/-! Fields: a value written in a given width with sign, base mark, digits and padding. Zero padding
of a number asks for digits up to the width and gives way to a precision and to left alignment.
Widths count characters of UTF-8, not bytes; a byte that starts no valid sequence is a character of
its own. -/
namespace BytecodeVm

namespace Utf8

def between (lo hi : UInt8) (b : UInt8) : Bool := decide (lo ≤ b) && decide (b ≤ hi)

def isContinuation (b : UInt8) : Bool := between 0x80 0xbf b

def secondByte (first : UInt8) : UInt8 → Bool :=
  if first = 0xe0 then between 0xa0 0xbf
  else if first = 0xed then between 0x80 0x9f
  else if first = 0xf0 then between 0x90 0xbf
  else if first = 0xf4 then between 0x80 0x8f
  else isContinuation

def firstLength : List UInt8 → Nat
  | b :: c :: rest =>
    if between 0xc2 0xdf b && isContinuation c then 2
    else if between 0xe0 0xef b && secondByte b c then
      match rest with
      | d :: _ => if isContinuation d then 3 else 1
      | [] => 1
    else if between 0xf0 0xf4 b && secondByte b c then
      match rest with
      | d :: e :: _ => if isContinuation d && isContinuation e then 4 else 1
      | _ => 1
    else 1
  | _ => 1

/-- The characters of a byte string, skipping the first `skip` bytes. -/
def splitFrom : (skip : Nat) → List UInt8 → List (List UInt8)
  | _, [] => []
  | 0, b :: rest =>
    let n := firstLength (b :: rest)
    (b :: rest).take n :: splitFrom (n - 1) rest
  | skip + 1, _ :: rest => splitFrom skip rest

def characters (bytes : List UInt8) : List (List UInt8) := splitFrom 0 bytes

def count (bytes : List UInt8) : Nat := (characters bytes).length

def ofLatin (b : UInt8) : List UInt8 :=
  if b < 0x80 then [b] else [(b >>> 6) ||| 0xc0, (b &&& 0x3f) ||| 0x80]

end Utf8

namespace Printf

structure Field where
  left : Bool
  plus : Bool
  space : Bool
  alternate : Bool
  zero : Bool
  width : Option Nat
  precision : Option Nat
deriving DecidableEq

namespace Field

def bytes (s : String) : List UInt8 := s.toUTF8.data.toList

def pad (f : Field) (fill : UInt8) (body : List UInt8) : List UInt8 :=
  let missing := List.replicate (f.width.getD 0 - Utf8.count body) fill
  if f.left then body ++ missing.map fun _ => ascii ' ' else missing ++ body

def padText (f : Field) (body : List UInt8) : List UInt8 :=
  f.pad (if f.zero then ascii '0' else ascii ' ') body

def leastDigits (f : Field) (negative : Bool) : Nat :=
  match f.precision with
  | some p => p
  | none =>
    if f.zero && !f.left then
      f.width.getD 0 - if negative || f.plus || f.space then 1 else 0
    else 0

def sign (f : Field) (negative : Bool) : List UInt8 :=
  if negative then [ascii '-']
  else if f.plus then [ascii '+']
  else if f.space then [ascii ' ']
  else []

inductive Base
  | decimal
  | octal
  | hexLower
  | hexUpper
deriving DecidableEq

def Base.radix : Base → Nat
  | .decimal => 10
  | .octal => 8
  | .hexLower | .hexUpper => 16

def Base.digit (b : Base) (d : Nat) : UInt8 :=
  if d < 10 then (48 + d).toUInt8
  else match b with
    | .hexUpper => (55 + d).toUInt8
    | _ => (87 + d).toUInt8

def digits (f : Field) (base : Base) (negative : Bool) (n : Nat) : List UInt8 :=
  let ds := (Numeral.digits base.radix n).map base.digit
  List.replicate (f.leastDigits negative - ds.length) (ascii '0') ++ ds

def mark (base : Base) (ds : List UInt8) : List UInt8 :=
  match base with
  | .decimal => []
  | .octal => if ds.head? = some (ascii '0') then [] else [ascii '0']
  | .hexLower => bytes "0x"
  | .hexUpper => bytes "0X"

/-- A number by its sign and magnitude. Zero with precision zero has no digits at all. -/
def number (f : Field) (base : Base) (negative : Bool) (n : Nat) : List UInt8 :=
  if f.precision = some 0 ∧ n = 0 then List.replicate (f.width.getD 0) (ascii ' ')
  else
    let ds := f.digits base negative n
    let marked := if f.alternate then mark base ds ++ ds else ds
    f.pad (ascii ' ') (f.sign negative ++ marked)

/-- A text, cut to as many characters as the precision says. -/
def text (f : Field) (s : List UInt8) : List UInt8 :=
  match f.precision with
  | none => f.padText s
  | some p => f.padText ((Utf8.characters s).take p).flatten

def char (f : Field) (b : UInt8) : List UInt8 := f.padText (Utf8.ofLatin b)

end Field

end Printf

end BytecodeVm
