/-! Numerals: a natural number in a base up to sixteen, most significant digit
first, and the signed and padded forms that messages and listings use. -/
namespace BytecodeVm.Numeral

def digitChar (d : Nat) : Char :=
  Char.ofNat (if d < 10 then 48 + d else 87 + d)

/-- The value of a digit in a base up to 36. Letters of either case go on after nine. -/
def digit? (base : Nat) (c : Char) : Option Nat :=
  let value :=
    if '0' ≤ c ∧ c ≤ '9' then some (c.toNat - 48)
    else if 'a' ≤ c ∧ c ≤ 'z' then some (c.toNat - 87)
    else if 'A' ≤ c ∧ c ≤ 'Z' then some (c.toNat - 55)
    else none
  value.filter (· < base)

/-- The digits of `n`, most significant first and without leading zeros, so that
zero has none. -/
def positional (base n : Nat) : List Nat :=
  if _h : n = 0 ∨ base < 2 then [] else positional base (n / base) ++ [n % base]
termination_by n
decreasing_by
  exact Nat.div_lt_self (by omega) (by omega)

/-- The digits that are written for `n`: zero has the one digit zero. -/
def digits (base n : Nat) : List Nat :=
  if n = 0 then [0] else positional base n

def value (base : Nat) (ds : List Nat) : Nat :=
  ds.foldl (fun n d => base * n + d) 0

def text (base n : Nat) : String :=
  String.ofList ((digits base n).map digitChar)

def decimal (n : Nat) : String := text 10 n

def hex (n : Nat) : String := text 16 n

def signed : Int → String
  | .ofNat n => decimal n
  | .negSucc n => "-" ++ decimal (n + 1)

def withSign (i : Int) : String :=
  if i < 0 then signed i else "+" ++ signed i

def padLeft (fill : Char) (width : Nat) (s : String) : String :=
  String.ofList (List.replicate (width - s.length) fill) ++ s

def hexByte (b : UInt8) : String := padLeft '0' 2 (hex b.toNat)

def hexBytes (bytes : List UInt8) : String :=
  String.ofList (bytes.flatMap fun b =>
    [digitChar (b.toNat / 16), digitChar (b.toNat % 16)])

end BytecodeVm.Numeral
