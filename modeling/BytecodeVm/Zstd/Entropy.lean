import BytecodeVm.Bytes

/-! Entropy codes. Table descriptions are read bit by bit from the front, coded symbols from the
back: the last byte of a stream has its highest set bit right behind the first bit that is read.
A state table gives each symbol several states, and a state tells how many bits lead to the next
one; a prefix table is looked up with as many bits as the longest code has. -/
namespace BytecodeVm.Zstd

inductive Error
  | truncated
  | notAFrame
  | reservedBit
  | dictionary
  | windowSize
  | sizeLimit
  | blockKind
  | blockSize
  | corrupted
  | checksum
deriving DecidableEq

def Error.message : Error → String
  | .truncated => "unexpected EOF"
  | .notAFrame => "invalid input: magic number mismatch"
  | .reservedBit => "reserved bit set on frame header"
  | .dictionary => "unknown dictionary"
  | .windowSize => "window size exceeded"
  | .sizeLimit => "decompressed size exceeds configured limit"
  | .blockKind => "invalid input: reserved block type encountered"
  | .blockSize => "compressed size too big"
  | .corrupted => "corruption detected"
  | .checksum => "invalid checksum"

/-- The number in `count` bits, least significant bit first. Bits past the end are zero. -/
def bits (b : Bytes) (offset count : Nat) : Nat :=
  b.number (offset / 8) ((offset % 8 + count + 7) / 8) >>> (offset % 8) % (1 <<< count)

/-! ## Streams -/

structure BitStream where
  bytes : Bytes
  /-- Negative once more bits were taken than there are; those in excess are zero. -/
  left : Int

namespace BitStream

def ofBytes (b : Bytes) : Except Error BitStream :=
  match (b.byteAt (b.size - 1)).toNat with
  | 0 => .error .corrupted
  | last => .ok ⟨b, 8 * (b.size - 1) + last.log2⟩

def peek (s : BitStream) (count : Nat) : Nat :=
  if count ≤ s.left then bits s.bytes (s.left - count).toNat count
  else bits s.bytes 0 s.left.toNat <<< (count - s.left.toNat)

def skip (s : BitStream) (count : Nat) : BitStream := { s with left := s.left - count }

def take (s : BitStream) (count : Nat) : Nat × BitStream := (s.peek count, s.skip count)

end BitStream

/-! ## State tables -/

structure State where
  symbol : Nat
  bits : Nat
  base : Nat
deriving Inhabited

structure StateTable where
  log : Nat
  states : Array State

namespace StateTable

def state (t : StateTable) (n : Nat) : State := t.states.getD n default

def start (t : StateTable) (s : BitStream) : State × BitStream :=
  let (n, s) := s.take t.log
  (t.state n, s)

def next (t : StateTable) (now : State) (s : BitStream) : State × BitStream :=
  let (n, s) := s.take now.bits
  (t.state (now.base + n), s)

def constant (symbol : Nat) : StateTable := ⟨0, #[⟨symbol, 0, 0⟩]⟩

/-- A share of `-1` stands for less than one state, and takes one. -/
def stateCount (share : Int) : Nat := share.natAbs

def symbols (log : Nat) (shares : List Int) : Array Nat :=
  let size := 1 <<< log
  let step := size / 2 + size / 8 + 3
  let rare := shares.zipIdx.filterMap fun (share, symbol) =>
    if share = -1 then some symbol else none
  let common := shares.zipIdx.flatMap fun (share, symbol) => List.replicate share.toNat symbol
  -- symbols with a share below one stand in the last states, the others are strewn over the rest
  let walk := ((List.range size).map fun k => k * step % size).filter (· < size - rare.length)
  let cells := walk.zip common ++ (rare.zipIdx.map fun (symbol, k) => (size - 1 - k, symbol))
  cells.foldl (fun table (cell, symbol) => table.setIfInBounds cell symbol) (.replicate size 0)

def ofShares (log : Nat) (shares : List Int) : StateTable :=
  let add := fun (counts, states) symbol =>
    -- the states of a symbol are numbered on from its share
    let n := counts.getD symbol 1
    let bits := log - n.log2
    (counts.setIfInBounds symbol (n + 1), states.push ⟨symbol, bits, n <<< bits - 1 <<< log⟩)
  let counts : Array Nat := (shares.map stateCount).toArray
  ⟨log, ((symbols log shares).foldl add (counts, (#[] : Array State))).2⟩

def readZeros (b : Bytes) : (fuel offset count : Nat) → Nat × Nat
  | 0, offset, count => (count, offset)
  | fuel + 1, offset, count =>
    let n := bits b offset 2
    -- three stands for more to come
    if n = 3 then readZeros b fuel (offset + 2) (count + 3) else (count + n, offset + 2)

/-- Reads shares until `rest` states are given away. A share takes one bit less if its low bits
alone tell it. -/
def readShares (b : Bytes) : (fuel rest offset : Nat) → (shares : List Int) →
    Except Error (List Int × Nat)
  | _, 0, offset, shares => .ok (shares, offset)
  | 0, _, _, _ => .error .corrupted
  | fuel + 1, rest, offset, shares =>
    let width := (rest + 1).log2
    let half := 1 <<< width
    let spare := 2 * half - 2 - rest
    let value := bits b offset (width + 1)
    let low := value % half
    let (value, offset) :=
      if low < spare then (low, offset + width)
      else (if half ≤ value then value - spare else value, offset + width + 1)
    match value with
    | 0 => readShares b fuel (rest - 1) offset (shares ++ [-1])
    | 1 =>
      let (zeros, offset) := readZeros b b.size offset 0
      readShares b fuel rest offset (shares ++ List.replicate (zeros + 1) 0)
    | n + 2 => readShares b fuel (rest - (n + 1)) offset (shares ++ [(n : Int) + 1])

def read (b : Bytes) (maxLog maxSymbols : Nat) : Except Error (StateTable × Nat) := do
  let log := 5 + bits b 0 4
  if maxLog < log then .error .corrupted
  let (shares, offset) ← readShares b maxSymbols (1 <<< log) 4 []
  let size := (offset + 7) / 8
  if b.size < size ∨ maxSymbols < shares.length then .error .corrupted
  return (ofShares log shares, size)

end StateTable

/-! ## Prefix tables -/

structure PrefixTable where
  log : Nat
  /-- For every sequence of `log` bits the symbol that it starts with and the length of its code. -/
  codes : Array (UInt8 × Nat)

namespace PrefixTable

def maxLog : Nat := 11

/-- Symbols of a weight have codes of one length, and the codes of lower weights come first. -/
def ofWeights (weights : List Nat) : Except Error PrefixTable := do
  let sum := weights.foldl
    (fun sum weight => if weight = 0 then sum else sum + 1 <<< (weight - 1)) 0
  if sum = 0 then .error .corrupted
  let log := sum.log2 + 1
  -- the weight of the last symbol is left out: it is what is missing to a power of two
  let missing := 1 <<< log - sum
  if maxLog < log ∨ 1 <<< missing.log2 ≠ missing then .error .corrupted
  let weights := weights ++ [missing.log2 + 1]
  return ⟨log, ((List.range log).flatMap fun k =>
    weights.zipIdx.flatMap fun (weight, symbol) =>
      if weight = k + 1 then List.replicate (1 <<< k) (symbol.toUInt8, log - k) else []).toArray⟩

/-- Two states take turns until the stream has run out. -/
def readCoded (t : StateTable) : (fuel : Nat) → BitStream → (now other : State) →
    Except Error (List Nat)
  | 0, _, _, _ => .error .corrupted
  | fuel + 1, s, now, other =>
    let (next, s) := t.next now s
    if s.left < 0 then .ok [now.symbol, other.symbol]
    else (readCoded t fuel s other next).map (now.symbol :: ·)

def maxWeights : Nat := 255

def readWeights (b : Bytes) (size : Nat) : Except Error (List Nat × Nat) :=
  if size < 128 then do
    let coded := b.slice 1 size
    if b.size < 1 + size then .error .truncated
    let (table, length) ← StateTable.read coded 6 (maxLog + 1)
    let s ← BitStream.ofBytes (coded.drop length)
    let (first, s) := table.start s
    let (second, s) := table.start s
    return (← readCoded table maxWeights s first second, 1 + size)
  else
    let count := size - 127
    let length := (count + 1) / 2
    if b.size < 1 + length then .error .truncated
    else
      let halves := (b.slice 1 length).toList.flatMap fun c => [c.toNat / 16, c.toNat % 16]
      .ok (halves.take count, 1 + length)

def read (b : Bytes) : Except Error (PrefixTable × Nat) := do
  if b.size = 0 then .error .truncated
  let (weights, length) ← readWeights b (b.byteAt 0).toNat
  if maxWeights < weights.length ∨ weights.any (maxLog < ·) then .error .corrupted
  return (← ofWeights weights, length)

def decodeFrom (t : PrefixTable) : (fuel : Nat) → BitStream → (out : Bytes) → Except Error Bytes
  | fuel, s, out =>
    if s.left = 0 then .ok out
    else if s.left < 0 then .error .corrupted
    else match fuel with
      | 0 => .error .corrupted
      | fuel + 1 =>
        let (symbol, length) := t.codes.getD (s.peek t.log) (0, 1)
        decodeFrom t fuel (s.skip length) (out.push symbol)

def decode (t : PrefixTable) (stream : Bytes) (count : Nat) (out : Bytes) : Except Error Bytes := do
  let s ← BitStream.ofBytes stream
  let all ← decodeFrom t count s out
  if all.size = out.size + count then return all else .error .corrupted

end PrefixTable

end BytecodeVm.Zstd
