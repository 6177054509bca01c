import BytecodeVm.Container
import BytecodeVm.Hash.Xxh64
import BytecodeVm.Zstd.Block

/-! Streams of frames, each a header, blocks and an optional checksum. A block holds its bytes as
they are, one byte to be repeated, or literals and sequences; skippable frames hold nothing. A
stream whose last three bytes or fewer start no frame ends before them. The output may reach the
greatest size of a container and pass it in the last block of a frame only. -/
namespace BytecodeVm.Zstd

structure Header where
  blocks : Nat
  window : Nat
  /-- Zero when the header does not say. -/
  contentSize : Nat
  hasChecksum : Bool
deriving DecidableEq

def number (b : Bytes) (offset length : Nat) : Except Error Nat :=
  if b.size < offset + length then .error .truncated else .ok (b.number offset length)

def minWindow : Nat := 1024
def maxWindow : Nat := Container.maxSize

/-- A power of two and eighths of it. -/
def windowSize (descriptor : Nat) : Nat :=
  let base := minWindow <<< (descriptor / 8)
  base + base / 8 * (descriptor % 8)

def dictionaryIdLength (descriptor : Nat) : Nat :=
  match descriptor % 4 with
  | 3 => 4
  | n => n

def contentSizeLength (descriptor : Nat) (single : Bool) : Nat :=
  match descriptor / 64 with
  | 0 => if single then 1 else 0
  | n => 1 <<< n

def parseHeader (b : Bytes) (offset : Nat) : Except Error Header := do
  let descriptor ← number b offset 1
  let single := descriptor / 32 % 2 = 1
  if descriptor / 8 % 2 = 1 then .error .reservedBit
  let window ← if single then pure 0 else windowSize <$> number b (offset + 1) 1
  let idStart := offset + if single then 1 else 2
  let idLength := dictionaryIdLength descriptor
  let id ← number b idStart idLength
  let sizeStart := idStart + idLength
  let sizeLength := contentSizeLength descriptor single
  let written ← number b sizeStart sizeLength
  let contentSize := if sizeLength = 2 then written + 256 else written
  let window := if single then max minWindow contentSize else window
  if id ≠ 0 then .error .dictionary
  if maxWindow < window then .error .windowSize
  return ⟨sizeStart + sizeLength, window, contentSize, descriptor / 4 % 2 = 1⟩

def maxCompressed : Nat := 131072
def maxContent : Nat := 2097151

def decodeBlock (b : Bytes) (window header offset : Nat) (h : History) (out : Bytes) :
    Except Error (Bytes × History × Nat) :=
  let size := header / 8
  match header / 2 % 4 with
  | 0 =>
    if b.size < offset + size then .error .truncated
    else .ok (out ++ b.slice offset size, h, offset + size)
  | 1 => do
    let value ← number b offset 1
    return (out ++ ⟨Array.replicate size value.toUInt8⟩, h, offset + 1)
  | 2 =>
    if maxCompressed < size ∨ window < size then .error .blockSize
    else if b.size < offset + size then .error .truncated
    else do
      let (all, h) ← decodeCompressed (b.slice offset size) window h out
      if out.size + maxContent < all.size then .error .corrupted
      return (all, h, offset + size)
  | _ => .error .blockKind

def decodeBlocks (b : Bytes) (window : Nat) : (fuel offset : Nat) → History → (out : Bytes) →
    Except Error (Bytes × Nat)
  | 0, _, _, _ => .error .truncated
  | fuel + 1, offset, h, out => do
    let header ← number b offset 3
    let (out, h, next) ← decodeBlock b window header (offset + 3) h out
    if header % 2 = 1 then return (out, next)
    else if Container.maxSize < out.size then .error .sizeLimit
    else decodeBlocks b window fuel next h out

def checksum (b : Bytes) : Nat := (Xxh64.hash b).toUInt32.toNat

def decodeFrame (b : Bytes) (offset : Nat) (out : Bytes) : Except Error (Bytes × Nat) := do
  let header ← parseHeader b offset
  if out.size ≤ Container.maxSize ∧ Container.maxSize < out.size + header.contentSize then
    .error .sizeLimit
  let (all, next) ← decodeBlocks b header.window b.size header.blocks .initial out
  if header.hasChecksum then do
    let expected ← number b next 4
    if checksum (all.drop out.size) = expected then return (all, next + 4)
    else .error .checksum
  else return (all, next)

def isSkippable (start : Nat) : Bool := start / 16 == 0x184d2a5

def decodeFrom (b : Bytes) : (fuel offset : Nat) → (out : Bytes) → Except Error Bytes
  | 0, _, out => .ok out
  | fuel + 1, offset, out =>
    if b.size < offset + 4 then .ok out
    else if isSkippable (b.number offset 4) then do
      let size ← number b (offset + 4) 4
      if b.size < offset + 8 + size then .error .truncated
      else decodeFrom b fuel (offset + 8 + size) out
    else if (b.slice offset 4).toList ≠ Codec.magic.toList then .error .notAFrame
    else do
      let (out, next) ← decodeFrame b (offset + 4) out
      decodeFrom b fuel next out

def decode (b : Bytes) : Except Error Bytes := decodeFrom b b.size 0 (Bytes.zeros 0)

/-! ## Frames that store their content -/

def blockSize : Nat := 131072

def storeBlocks (b : Bytes) : (fuel offset : Nat) → Bytes
  | 0, _ => Bytes.zeros 0
  | fuel + 1, offset =>
    let size := min blockSize (b.size - offset)
    let isLast := b.size ≤ offset + size
    let header := 8 * size + if isLast then 1 else 0
    let block := Bytes.ofList (LittleEndian.ofNat 3 header) ++ b.slice offset size
    if isLast then block else block ++ storeBlocks b fuel (offset + size)

/-- One frame that tells its size and holds the bytes as they are; nothing for no bytes. -/
def store (b : Bytes) : Bytes :=
  if b.size = 0 then Bytes.zeros 0
  else
    Codec.magic ++ Bytes.ofList (0xa4 :: LittleEndian.ofNat 4 b.size) ++
      storeBlocks b (b.size + 1) 0 ++ Bytes.ofList (LittleEndian.ofNat 4 (checksum b))

/-- Reads frames of every kind and writes frames that store their content. -/
def codec : Codec where
  encode := store
  decode b := (decode b).mapError Error.message

end BytecodeVm.Zstd
