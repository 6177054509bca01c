import BytecodeVm.Bytes

/-! Keccak-256 with the padding of the first published version: a sponge over the
1600-bit permutation with a rate of 136 bytes. -/
namespace BytecodeVm.Keccak

/-- The lane in column `x` and row `y` is at `x + 5 * y`. -/
abbrev State := Vector UInt64 25

def lane (s : State) (x y : Nat) : UInt64 := s[x % 5 + 5 * (y % 5)]

def rotateLeft (v : UInt64) (n : Nat) : UInt64 :=
  if n = 0 then v else (v <<< UInt64.ofNat n) ||| (v >>> UInt64.ofNat (64 - n))

def rotations : Vector Nat 25 :=
  #v[0, 1, 62, 28, 27,
    36, 44, 6, 55, 20,
    3, 10, 43, 25, 39,
    41, 45, 15, 21, 8,
    18, 2, 61, 56, 14]

def roundConstants : List UInt64 := [
  0x0000000000000001, 0x0000000000008082, 0x800000000000808a, 0x8000000080008000,
  0x000000000000808b, 0x0000000080000001, 0x8000000080008081, 0x8000000000008009,
  0x000000000000008a, 0x0000000000000088, 0x0000000080008009, 0x000000008000000a,
  0x000000008000808b, 0x800000000000008b, 0x8000000000008089, 0x8000000000008003,
  0x8000000000008002, 0x8000000000000080, 0x000000000000800a, 0x800000008000000a,
  0x8000000080008081, 0x8000000000008080, 0x0000000080000001, 0x8000000080008008]

def theta (s : State) : State :=
  let parity : Vector UInt64 5 := Vector.ofFn fun x =>
    lane s x.val 0 ^^^ lane s x.val 1 ^^^ lane s x.val 2 ^^^ lane s x.val 3 ^^^ lane s x.val 4
  let column (x : Nat) : UInt64 := parity[x % 5]
  let change : Vector UInt64 5 := Vector.ofFn fun x =>
    column (x.val + 4) ^^^ rotateLeft (column (x.val + 1)) 1
  Vector.ofFn fun i => s[i.val] ^^^ change[i.val % 5]

def rhoPi (s : State) : State :=
  Vector.ofFn fun i =>
    let x := i.val % 5
    let y := i.val / 5
    let j := (x + 3 * y) % 5 + 5 * x
    rotateLeft (s.get (Fin.ofNat 25 j)) (rotations.get (Fin.ofNat 25 j))

def chi (s : State) : State :=
  Vector.ofFn fun i =>
    let x := i.val % 5
    let y := i.val / 5
    lane s x y ^^^ (~~~(lane s (x + 1) y) &&& lane s (x + 2) y)

def round (s : State) (constant : UInt64) : State :=
  let s := chi (rhoPi (theta s))
  s.set 0 (s[0] ^^^ constant)

def permutation (s : State) : State := roundConstants.foldl round s

def rate : Nat := 136

def pad (b : Bytes) : Bytes :=
  let missing := rate - b.size % rate
  let tail : List UInt8 :=
    if missing = 1 then [0x81] else 0x01 :: List.replicate (missing - 2) 0 ++ [0x80]
  b ++ Bytes.ofList tail

def absorb (s : State) (b : Bytes) (offset : Nat) : State :=
  permutation (Vector.ofFn fun i =>
    if i.val < rate / 8 then s[i.val] ^^^ UInt64.ofNat (b.number (offset + 8 * i.val) 8)
    else s[i.val])

def digest (b : Bytes) : List UInt8 :=
  let padded := pad b
  let s := (List.range (padded.size / rate)).foldl
    (fun s k => absorb s padded (k * rate)) (Vector.replicate 25 0)
  (s.toList.take 4).flatMap fun w => LittleEndian.ofNat 8 w.toNat

end BytecodeVm.Keccak
