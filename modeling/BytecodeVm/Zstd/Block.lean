import BytecodeVm.Zstd.Entropy

/-! Compressed blocks: literals, and sequences that tell how many of them to copy and which part of
the output to repeat behind them. What does not come with a block is left over from the last. -/
namespace BytecodeVm.Zstd

structure Tables where
  literalLength : StateTable
  offset : StateTable
  matchLength : StateTable

structure History where
  literals : Option PrefixTable
  tables : Option Tables
  recent : Nat × Nat × Nat

def History.initial : History := ⟨none, none, (1, 4, 8)⟩

/-! ## Literals -/

/-- The number of bytes of a header, of streams and of bits in a size. -/
def literalsFormat (first : Nat) : Nat × Nat × Nat :=
  let format := first / 4 % 4
  match first % 4, format with
  | 0, 1 | 1, 1 => (2, 0, 12)
  | 0, 3 | 1, 3 => (3, 0, 20)
  | 0, _ | 1, _ => (1, 0, 5)
  | _, 0 => (3, 1, 10)
  | _, 1 => (3, 4, 10)
  | _, 2 => (4, 4, 14)
  | _, _ => (5, 4, 18)

def decodeStreams (t : PrefixTable) (b : Bytes) (streams size : Nat) : Except Error Bytes :=
  if streams = 1 then t.decode b size (Bytes.zeros 0)
  else do
    -- a table in front tells the lengths of the first three streams
    let (l₁, l₂, l₃) := (b.number 0 2, b.number 2 2, b.number 4 2)
    let quarter := (size + 3) / 4
    if b.size < 6 + l₁ + l₂ + l₃ ∨ size < 3 * quarter then .error .corrupted
    let out ← t.decode (b.slice 6 l₁) quarter (Bytes.zeros 0)
    let out ← t.decode (b.slice (6 + l₁) l₂) quarter out
    let out ← t.decode (b.slice (6 + l₁ + l₂) l₃) quarter out
    t.decode (b.drop (6 + l₁ + l₂ + l₃)) (size - 3 * quarter) out

def readLiterals (b : Bytes) (h : History) : Except Error (Bytes × Nat × History) := do
  let first := (b.byteAt 0).toNat
  let (length, streams, width) := literalsFormat first
  if b.size < length then .error .truncated
  let header := b.number 0 length
  let size := if length = 1 then header / 8 else header / 16 % (1 <<< width)
  match first % 4 with
  | 0 =>
    if b.size < length + size then .error .truncated
    return (b.slice length size, length + size, h)
  | 1 =>
    if b.size < length + 1 then .error .truncated
    return (⟨Array.replicate size (b.byteAt length)⟩, length + 1, h)
  | kind =>
    let coded := header >>> (4 + width)
    if b.size < length + coded then .error .truncated
    let content := b.slice length coded
    let (table, skipped) ←
      if kind = 2 then PrefixTable.read content
      else match h.literals with
        | some table => pure (table, 0)
        | none => .error .corrupted
    let literals ← decodeStreams table (content.drop skipped) streams size
    return (literals, length + coded, { h with literals := some table })

/-! ## Sequences -/

/-- A kind of number in a sequence: the extra bits of each code and the value of the first code,
from which the values go on without a gap, and the standard shares of the codes. -/
structure NumberCode where
  extraBits : List Nat
  first : Nat
  maxLog : Nat
  log : Nat
  shares : List Int

namespace NumberCode

def literalLength : NumberCode where
  extraBits := List.replicate 16 0 ++
    [1, 1, 1, 1, 2, 2, 3, 3, 4, 6, 7, 8, 9, 10, 11, 12, 13, 14, 15, 16]
  first := 0
  maxLog := 9
  log := 6
  shares := [4, 3, 2, 2, 2, 2, 2, 2, 2, 2, 2, 2, 2, 1, 1, 1, 2, 2, 2, 2, 2, 2, 2, 2, 2, 3, 2, 1, 1,
    1, 1, 1, -1, -1, -1, -1]

def matchLength : NumberCode where
  extraBits := List.replicate 32 0 ++
    [1, 1, 1, 1, 2, 2, 3, 3, 4, 4, 5, 7, 8, 9, 10, 11, 12, 13, 14, 15, 16]
  first := 3
  maxLog := 9
  log := 6
  shares := [1, 4, 3, 2, 2, 2, 2, 2, 2] ++ List.replicate 37 1 ++ List.replicate 7 (-1)

def offset : NumberCode where
  extraBits := List.range 32
  first := 1
  maxLog := 8
  log := 5
  shares := [1, 1, 1, 1, 1, 1, 2, 2, 2] ++ List.replicate 15 1 ++ List.replicate 5 (-1)

def value (c : NumberCode) (code : Nat) (s : BitStream) : Nat × BitStream :=
  let base := (c.extraBits.take code).foldl (fun sum width => sum + 1 <<< width) c.first
  let (extra, s) := s.take (c.extraBits.getD code 0)
  (base + extra, s)

def table (c : NumberCode) (mode : Nat) (b : Bytes) (last : Option StateTable) :
    Except Error (StateTable × Nat) :=
  match mode with
  | 0 => .ok (.ofShares c.log c.shares, 0)
  | 1 =>
    if b.size = 0 then .error .truncated
    else if c.extraBits.length ≤ (b.byteAt 0).toNat then .error .corrupted
    else .ok (.constant (b.byteAt 0).toNat, 1)
  | 2 => StateTable.read b c.maxLog c.extraBits.length
  | _ =>
    match last with
    | some t => .ok (t, 0)
    | none => .error .corrupted

end NumberCode

def History.distance (h : History) (value literals : Nat) : Nat × History :=
  let (a, b, c) := h.recent
  if 3 < value then (value - 3, { h with recent := (value - 3, a, b) })
  -- the other values stand for recent distances, from the second on if no literals come before
  else match if literals = 0 then value + 1 else value with
    | 1 => (a, h)
    | 2 => (b, { h with recent := (b, a, c) })
    | 3 => (c, { h with recent := (c, a, b) })
    | _ => (max 1 (a - 1), { h with recent := (max 1 (a - 1), a, b) })

/-- Repeats the output from `distance` bytes back on, which may run into what it writes. -/
def repeatBack (distance : Nat) : (length : Nat) → (out : Bytes) → Bytes
  | 0, out => out
  | length + 1, out => repeatBack distance length (out.push (out.byteAt (out.size - distance)))

structure States where
  literalLength : State
  offset : State
  matchLength : State

namespace Tables

def start (t : Tables) (s : BitStream) : States × BitStream :=
  let (literalLength, s) := t.literalLength.start s
  let (offset, s) := t.offset.start s
  let (matchLength, s) := t.matchLength.start s
  (⟨literalLength, offset, matchLength⟩, s)

def next (t : Tables) (now : States) (s : BitStream) : States × BitStream :=
  let (literalLength, s) := t.literalLength.next now.literalLength s
  let (matchLength, s) := t.matchLength.next now.matchLength s
  let (offset, s) := t.offset.next now.offset s
  (⟨literalLength, offset, matchLength⟩, s)

/-- Appends what `count` sequences make of the literals, and the literals that are left then. -/
def decode (t : Tables) (window : Nat) (literals : Bytes) :
    (count : Nat) → States → BitStream → (used : Nat) → History → (out : Bytes) →
      Except Error (Bytes × History)
  | 0, _, s, used, h, out =>
    if s.left = 0 then .ok (out ++ literals.drop used, h) else .error .corrupted
  | count + 1, now, s, used, h, out =>
    let (value, s) := NumberCode.offset.value now.offset.symbol s
    let (matched, s) := NumberCode.matchLength.value now.matchLength.symbol s
    let (copied, s) := NumberCode.literalLength.value now.literalLength.symbol s
    let (distance, h) := h.distance value copied
    if literals.size < used + copied then .error .corrupted
    else
      let out := out ++ literals.slice used copied
      if out.size < distance ∨ window < distance then .error .corrupted
      else
        let (now, s) := if count = 0 then (now, s) else t.next now s
        decode t window literals count now s (used + copied) h (repeatBack distance matched out)

end Tables

def readCount (b : Bytes) : Except Error (Nat × Nat) :=
  let first := (b.byteAt 0).toNat
  let (count, length) :=
    if first < 128 then (first, 1)
    else if first < 255 then ((first - 128) * 256 + (b.byteAt 1).toNat, 2)
    else (b.number 1 2 + 0x7f00, 3)
  if b.size < length then .error .truncated else .ok (count, length)

def decodeCompressed (b : Bytes) (window : Nat) (h : History) (out : Bytes) :
    Except Error (Bytes × History) := do
  let (literals, length, h) ← readLiterals b h
  let b := b.drop length
  let (count, length) ← readCount b
  if count = 0 then return (out ++ literals, h)
  if b.size ≤ length then .error .truncated
  let modes := (b.byteAt length).toNat
  if modes % 4 ≠ 0 then .error .corrupted
  let b := b.drop (length + 1)
  let (literalLength, length) ←
    NumberCode.literalLength.table (modes / 64) b (h.tables.map (·.literalLength))
  let b := b.drop length
  let (offset, length) ← NumberCode.offset.table (modes / 16 % 4) b (h.tables.map (·.offset))
  let b := b.drop length
  let (matchLength, length) ←
    NumberCode.matchLength.table (modes / 4 % 4) b (h.tables.map (·.matchLength))
  let tables : Tables := ⟨literalLength, offset, matchLength⟩
  let (states, s) := tables.start (← BitStream.ofBytes (b.drop length))
  tables.decode window literals count states s 0 { h with tables := some tables } out

end BytecodeVm.Zstd
