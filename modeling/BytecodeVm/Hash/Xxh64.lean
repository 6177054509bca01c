import BytecodeVm.Bytes

/-! XXH64 with seed zero, the checksum of compressed streams. -/
namespace BytecodeVm.Xxh64

def prime1 : UInt64 := 0x9e3779b185ebca87
def prime2 : UInt64 := 0xc2b2ae3d27d4eb4f
def prime3 : UInt64 := 0x165667b19e3779f9
def prime4 : UInt64 := 0x85ebca77c2b2ae63
def prime5 : UInt64 := 0x27d4eb2f165667c5

def rotateLeft (v n : UInt64) : UInt64 := (v <<< n) ||| (v >>> (64 - n))

structure Lanes where
  a : UInt64
  b : UInt64
  c : UInt64
  d : UInt64

def word32 (b : Bytes) (i : Nat) : UInt64 :=
  (b.byteAt i).toUInt64 ||| (b.byteAt (i + 1)).toUInt64 <<< 8 |||
    (b.byteAt (i + 2)).toUInt64 <<< 16 ||| (b.byteAt (i + 3)).toUInt64 <<< 24

def word64 (b : Bytes) (i : Nat) : UInt64 := word32 b i ||| word32 b (i + 4) <<< 32

def step (sum word : UInt64) : UInt64 := rotateLeft (sum + word * prime2) 31 * prime1

def Lanes.start : Lanes := ⟨prime1 + prime2, prime2, 0, 0 - prime1⟩

def Lanes.absorb (b : Bytes) : (stripes i : Nat) → Lanes → Lanes
  | 0, _, v => v
  | stripes + 1, i, v =>
    Lanes.absorb b stripes (i + 32)
      ⟨step v.a (word64 b i), step v.b (word64 b (i + 8)),
        step v.c (word64 b (i + 16)), step v.d (word64 b (i + 24))⟩

def merge (sum lane : UInt64) : UInt64 := (sum ^^^ step 0 lane) * prime1 + prime4

def Lanes.combine (v : Lanes) : UInt64 :=
  let sum := rotateLeft v.a 1 + rotateLeft v.b 7 + rotateLeft v.c 12 + rotateLeft v.d 18
  merge (merge (merge (merge sum v.a) v.b) v.c) v.d

/-- Adds the bytes from `i` on, fewer than a stripe: by eights, then a four, then one by one. -/
def tail (b : Bytes) : (steps i : Nat) → UInt64 → UInt64
  | 0, _, sum => sum
  | steps + 1, i, sum =>
    if i + 8 ≤ b.size then
      tail b steps (i + 8) (rotateLeft (sum ^^^ step 0 (word64 b i)) 27 * prime1 + prime4)
    else if i + 4 ≤ b.size then
      tail b steps (i + 4) (rotateLeft (sum ^^^ word32 b i * prime1) 23 * prime2 + prime3)
    else if i < b.size then
      tail b steps (i + 1) (rotateLeft (sum ^^^ (b.byteAt i).toUInt64 * prime5) 11 * prime1)
    else sum

def avalanche (sum : UInt64) : UInt64 :=
  let sum := (sum ^^^ sum >>> 33) * prime2
  let sum := (sum ^^^ sum >>> 29) * prime3
  sum ^^^ sum >>> 32

def hash (b : Bytes) : UInt64 :=
  let stripes := b.size / 32
  let sum := if stripes = 0 then prime5 else (Lanes.absorb b stripes 0 .start).combine
  avalanche (tail b 32 (stripes * 32) (sum + UInt64.ofNat b.size))

end BytecodeVm.Xxh64
