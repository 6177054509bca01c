import BytecodeVm.Proofs.ContainerFormat
import BytecodeVm.Zstd.Frame

/-! Compression is transparent. No container starts like a frame, so a container is loaded alike
from its image and from what a codec makes of the image. That such a codec exists is seen from the
one that stores bytes in frames as they are: a stream of one frame is read piece by piece, the
header, the blocks, one after the other into what was read before, and the checksum. -/
namespace BytecodeVm

open Bytes (HasAt)

namespace Zstd

variable {x : Bytes} {start window : Nat} {h : History}

theorem number_of_hasAt {count n : Nat}
    (h : HasAt x start (Bytes.ofList (LittleEndian.ofNat count n))) (small : n < 256 ^ count) :
    number x start count = .ok n := by
  have inside := h.le
  rw [Bytes.size_ofList, LittleEndian.length_ofNat] at inside
  rw [number, if_neg (Nat.not_lt.mpr inside), h.number small]

theorem number_zero (inside : start ≤ x.size) : number x start 0 = .ok 0 := by
  have none : (Bytes.slice x start 0).toList = [] := by rw [Bytes.toList_slice, List.take_zero]
  rw [number, Nat.add_zero, if_neg (Nat.not_lt.mpr inside), Bytes.number, none, LittleEndian.toNat]

/-! ## Blocks -/

def storedBlock (content : Bytes) (isLast : Bool) : Bytes :=
  Bytes.ofList (LittleEndian.ofNat 3 (8 * content.size + isLast.toNat)) ++ content

theorem size_storedBlock (content : Bytes) (isLast : Bool) :
    (storedBlock content isLast).size = 3 + content.size := by
  rw [storedBlock, ByteArray.size_append, Bytes.size_ofList, LittleEndian.length_ofNat]

section

variable {content : Bytes} {isLast : Bool} (stored : HasAt x start (storedBlock content isLast))

include stored

theorem number_storedBlock (small : content.size ≤ blockSize) :
    number x start 3 = .ok (8 * content.size + isLast.toNat) := by
  refine number_of_hasAt stored.left ?_
  have flag := isLast.toNat_le
  rw [blockSize] at small
  omega

theorem decodeBlock_storedBlock (out : Bytes) :
    decodeBlock x window (8 * content.size + isLast.toNat) (start + 3) h out =
      .ok (out ++ content, h, start + (storedBlock content isLast).size) := by
  have flag := isLast.toNat_le
  have kind : (8 * content.size + isLast.toNat) / 2 % 4 = 0 := by omega
  have size : (8 * content.size + isLast.toNat) / 8 = content.size := by omega
  have place := stored.right
  rw [Bytes.size_ofList, LittleEndian.length_ofNat] at place
  simp only [decodeBlock, kind, size, place.slice, size_storedBlock]
  rw [if_neg (Nat.not_lt.mpr place.le), Nat.add_assoc]

end

theorem decodeBlocks_last {content : Bytes} (stored : HasAt x start (storedBlock content true))
    (small : content.size ≤ blockSize) (fuel : Nat) (out : Bytes) :
    decodeBlocks x window (fuel + 1) start h out =
      .ok (out ++ content, start + (storedBlock content true).size) := by
  have odd : (8 * content.size + true.toNat) % 2 = 1 := by
    rw [Bool.toNat_true]
    omega
  simp only [decodeBlocks, number_storedBlock stored small, decodeBlock_storedBlock stored, bind,
    Except.bind, odd, if_true, pure, Except.pure]

theorem decodeBlocks_more {content : Bytes} (stored : HasAt x start (storedBlock content false))
    (small : content.size ≤ blockSize) (fuel : Nat) {out : Bytes}
    (room : (out ++ content).size ≤ Container.maxSize) :
    decodeBlocks x window (fuel + 1) start h out =
      decodeBlocks x window fuel (start + (storedBlock content false).size) h (out ++ content) := by
  have even : ¬ (8 * content.size + false.toNat) % 2 = 1 := by
    rw [Bool.toNat_false]
    omega
  simp only [decodeBlocks, number_storedBlock stored small, decodeBlock_storedBlock stored, bind,
    Except.bind, even, if_false, Nat.not_lt.mpr room]

/-! ## Frames that store bytes -/

variable {b : Bytes}

def chunk (b : Bytes) (offset : Nat) : Bytes := b.slice offset (min blockSize (b.size - offset))

theorem size_chunk {offset : Nat} (inside : offset ≤ b.size) :
    (chunk b offset).size = min blockSize (b.size - offset) := by
  rw [chunk, Bytes.slice, ByteArray.size_extract]
  omega

theorem slice_append_chunk {offset : Nat} (inside : offset ≤ b.size) :
    b.slice 0 offset ++ chunk b offset = b.slice 0 (offset + (chunk b offset).size) := by
  apply Bytes.ext_toList
  rw [size_chunk inside, chunk, Bytes.toList_append, Bytes.toList_slice, Bytes.toList_slice,
    Bytes.toList_slice, List.drop_zero, List.take_add]

theorem storeBlocks_last {fuel offset : Nat} (inside : offset ≤ b.size)
    (last : b.size ≤ offset + (chunk b offset).size) :
    storeBlocks b (fuel + 1) offset = storedBlock (chunk b offset) true := by
  rw [storedBlock, size_chunk inside]
  rw [size_chunk inside] at last
  simp only [storeBlocks, last, if_true, Bool.toNat_true, chunk]

theorem storeBlocks_more {fuel offset : Nat} (inside : offset ≤ b.size)
    (more : ¬ b.size ≤ offset + (chunk b offset).size) :
    storeBlocks b (fuel + 1) offset =
      storedBlock (chunk b offset) false ++
        storeBlocks b fuel (offset + (chunk b offset).size) := by
  rw [storedBlock, size_chunk inside]
  rw [size_chunk inside] at more
  simp only [storeBlocks, more, if_false, Bool.toNat_false, chunk]

theorem decodeBlocks_storeBlocks (small : b.size ≤ Container.maxSize) {fuel offset budget : Nat}
    (inside : offset < b.size) (enough : b.size - offset < fuel) (paid : b.size - offset ≤ budget)
    (stored : HasAt x start (storeBlocks b fuel offset)) :
    decodeBlocks x window budget start h (b.slice 0 offset) =
      .ok (b, start + (storeBlocks b fuel offset).size) := by
  induction fuel generalizing offset budget start with
  | zero => omega
  | succ fuel ih =>
    have size := size_chunk (Nat.le_of_lt inside)
    have fits : (chunk b offset).size ≤ blockSize := by omega
    have step : 0 < (chunk b offset).size := by
      have : 0 < blockSize := Nat.le_of_ble_eq_true rfl
      omega
    obtain ⟨budget, rfl⟩ : ∃ k, budget = k + 1 := ⟨budget - 1, by omega⟩
    by_cases last : b.size ≤ offset + (chunk b offset).size
    · rw [storeBlocks_last (Nat.le_of_lt inside) last] at stored ⊢
      have reached : offset + (chunk b offset).size = b.size := by omega
      rw [decodeBlocks_last stored fits, slice_append_chunk (Nat.le_of_lt inside), reached,
        Bytes.slice_all]
    · rw [storeBlocks_more (Nat.le_of_lt inside) last] at stored ⊢
      have room : (b.slice 0 offset ++ chunk b offset).size ≤ Container.maxSize := by
        rw [slice_append_chunk (Nat.le_of_lt inside), Bytes.slice, ByteArray.size_extract]
        omega
      rw [decodeBlocks_more stored.left fits budget room, slice_append_chunk (Nat.le_of_lt inside),
        ih (by omega) (by omega) (by omega) stored.right, ByteArray.size_append, Nat.add_assoc]

theorem size_storeBlocks {fuel offset : Nat} (inside : offset ≤ b.size)
    (enough : b.size - offset < fuel) : b.size - offset ≤ (storeBlocks b fuel offset).size := by
  induction fuel generalizing offset with
  | zero => omega
  | succ fuel ih =>
    have size := size_chunk inside
    by_cases last : b.size ≤ offset + (chunk b offset).size
    · rw [storeBlocks_last inside last, size_storedBlock]
      omega
    · have step : 0 < (chunk b offset).size := by
        have : 0 < blockSize := Nat.le_of_ble_eq_true rfl
        omega
      have rest := ih (show offset + (chunk b offset).size ≤ b.size by omega) (by omega)
      rw [storeBlocks_more inside last, ByteArray.size_append, size_storedBlock]
      omega

def segmentHeader (size : Nat) : Bytes := Bytes.ofList (0xa4 :: LittleEndian.ofNat 4 size)

theorem size_segmentHeader (size : Nat) : (segmentHeader size).size = 5 := by
  rw [segmentHeader, Bytes.size_ofList, List.length_cons, LittleEndian.length_ofNat]

theorem parseHeader_segmentHeader {size : Nat} (h : HasAt x start (segmentHeader size))
    (small : size ≤ Container.maxSize) :
    parseHeader x start = .ok ⟨start + 5, max minWindow size, size, true⟩ := by
  have split : segmentHeader size = Bytes.ofList (LittleEndian.ofNat 1 0xa4) ++
      Bytes.ofList (LittleEndian.ofNat 4 size) := by
    apply Bytes.ext_toList
    simp [segmentHeader, Bytes.toList_append, LittleEndian.ofNat]
  rw [split] at h
  have first := number_of_hasAt h.left (by omega)
  have place := h.right
  rw [Bytes.size_ofList, LittleEndian.length_ofNat] at place
  have id := number_zero (Nat.le_of_add_right_le place.le)
  have told := number_of_hasAt place (by rw [Container.maxSize] at small; omega)
  have idLength : dictionaryIdLength 0xa4 = 0 := rfl
  have sizeLength : contentSizeLength 0xa4 true = 4 := rfl
  have window : ¬ maxWindow < max minWindow size := by
    rw [maxWindow, minWindow]
    rw [Container.maxSize] at small ⊢
    omega
  simp [parseHeader, first, id, told, idLength, sizeLength, window, bind, Except.bind, pure,
    Except.pure]

theorem size_magic : Codec.magic.size = 4 := rfl

theorem store_eq (nonempty : b.size ≠ 0) :
    store b = Codec.magic ++ segmentHeader b.size ++ storeBlocks b (b.size + 1) 0 ++
      Bytes.ofList (LittleEndian.ofNat 4 (checksum b)) :=
  if_neg nonempty

theorem hasAt_store (nonempty : b.size ≠ 0) :
    HasAt (store b) 0 (Codec.magic ++ segmentHeader b.size ++ storeBlocks b (b.size + 1) 0 ++
      Bytes.ofList (LittleEndian.ofNat 4 (checksum b))) := by
  rw [← store_eq nonempty]
  exact HasAt.whole (store b)

theorem slice_store (nonempty : b.size ≠ 0) : (store b).slice 0 4 = Codec.magic :=
  (hasAt_store nonempty).left.left.left.slice

theorem decodeFrame_store (nonempty : b.size ≠ 0) (small : b.size ≤ Container.maxSize) :
    decodeFrame (store b) 4 (Bytes.zeros 0) = .ok (b, (store b).size) := by
  have whole := hasAt_store nonempty
  have total := congrArg ByteArray.size (store_eq nonempty)
  have blocks := whole.left.right
  have sum := whole.right
  simp only [ByteArray.size_append, size_magic, size_segmentHeader, Bytes.size_ofList,
    LittleEndian.length_ofNat, Nat.zero_add] at total blocks sum
  have header := parseHeader_segmentHeader whole.left.left.right small
  have long : b.size - 0 ≤ (storeBlocks b (b.size + 1) 0).size :=
    size_storeBlocks (Nat.zero_le _) (by omega)
  have content : decodeBlocks (store b) (max minWindow b.size) (store b).size (4 + 5) .initial
      (b.slice 0 0) =
      .ok (b, 4 + 5 + (storeBlocks b (b.size + 1) 0).size) :=
    decodeBlocks_storeBlocks small (by omega) (by omega) (by omega) blocks
  have expected := number_of_hasAt sum (Xxh64.hash b).toUInt32.toNat_lt
  have nothing : Bytes.zeros 0 = b.slice 0 0 := by
    apply Bytes.ext_toList
    rw [Bytes.toList_slice, List.take_zero]
    rfl
  have fits : ¬ ((b.slice 0 0).size ≤ Container.maxSize ∧
      Container.maxSize < (b.slice 0 0).size + b.size) := by
    rw [← nothing, Bytes.size_zeros]
    omega
  have all : b.drop (b.slice 0 0).size = b := by
    rw [← nothing, Bytes.size_zeros]
    exact ByteArray.extract_zero_size
  rw [Nat.zero_add, size_magic] at header
  rw [nothing]
  simp only [decodeFrame, header, fits, content, all, expected, bind, Except.bind, pure,
    Except.pure, if_true, if_false]
  rw [total]

theorem decode_store (nonempty : b.size ≠ 0) (small : b.size ≤ Container.maxSize) :
    decode (store b) = .ok b := by
  have first := slice_store nonempty
  have long : 4 ≤ (store b).size := by
    have inside := (hasAt_store nonempty).left.left.left.le
    rwa [Nat.zero_add, size_magic] at inside
  have frame : isSkippable ((store b).number 0 4) = false := by
    rw [Bytes.number, first]
    rfl
  -- the end of the frame is the end of the stream
  have done (fuel : Nat) : decodeFrom (store b) fuel (store b).size b = .ok b := by
    cases fuel with
    | zero => rfl
    | succ fuel => exact if_pos (by omega)
  obtain ⟨fuel, size⟩ : ∃ k, (store b).size = k + 1 := ⟨(store b).size - 1, by omega⟩
  have more : ¬ (store b).size < 0 + 4 := by omega
  rw [← done fuel, decode]
  conv => lhs; rw [size]
  simp only [decodeFrom, more, frame, first, decodeFrame_store nonempty small, bind, Except.bind,
    if_false, ne_eq, not_true_eq_false, Bool.false_eq_true]

theorem faithful_codec : codec.Faithful where
  empty := rfl
  framed _ nonempty := congrArg Bytes.toList (slice_store nonempty)
  inverse _ nonempty small := congrArg (Except.mapError Error.message) (decode_store nonempty small)

end Zstd

theorem Container.first_of_admissible {image : Bytes} (h : Container.Admissible image) :
    (image.slice 0 4).toList = [0x46, 0x50, 0x42, 0x72] := by
  have enough := h.header
  rw [Header.size] at enough
  have bytes := Header.bytes_field (show 0 + 4 ≤ image.size by omega)
  have magic : Header.field image 0 = Header.magicNumber := h.magic
  rw [magic] at bytes
  rw [Bytes.toList_slice, ← bytes]
  rfl

namespace Codec

variable {z : Codec} {b image : Bytes} {files : FileTree} {path : String}

theorem Faithful.decompress_compress (faithful : z.Faithful) (small : b.size ≤ Container.maxSize) :
    z.decompress (z.compress b) = .ok b := by
  by_cases nonempty : b.size = 0
  · have nothing : b = Bytes.zeros 0 := by
      apply Bytes.ext_toList
      exact List.length_eq_zero_iff.mp nonempty
    rw [nothing, compress, faithful.empty]
    rfl
  · rw [decompress, compress, if_pos (faithful.framed b nonempty),
      faithful.inverse b nonempty small]

theorem decompress_image (z : Codec) (h : Container.Admissible image) :
    z.decompress image = .ok image := by
  refine if_neg ?_
  rw [Container.first_of_admissible h]
  decide

theorem readFile_of_decompress (found : files.read path = .ok b)
    (decoded : z.decompress b = .ok image) :
    Container.readFile z files path = (Container.parse image).mapError .container := by
  simp [Container.readFile, found, decoded, bind, Except.bind, Except.mapError]

/-- Compression does not show: whatever is compressed comes back, up to the size of the greatest
container, and a file with the image of a container and one with the compressed image are read as
the same container. What is no container is refused alike in compressed form. -/
theorem compression_transparent (faithful : z.Faithful) :
    (∀ b : Bytes, b.size ≤ Container.maxSize → z.decompress (z.compress b) = .ok b) ∧
    (∀ image c, Container.parse image = .ok c →
      z.decompress image = .ok image ∧ z.decompress (z.compress image) = .ok image ∧
      ∀ (files : FileTree) (path : String),
        files.read path = .ok image ∨ files.read path = .ok (z.compress image) →
          Container.readFile z files path = .ok c) ∧
    ∀ (b : Bytes) (files : FileTree) (path : String), b.size ≤ Container.maxSize →
      files.read path = .ok (z.compress b) →
        Container.readFile z files path = (Container.parse b).mapError .container := by
  refine ⟨fun b small => faithful.decompress_compress small, ?_, ?_⟩
  · intro image c accepted
    have admissible := Container.admissible_of_parse accepted
    have plain := z.decompress_image admissible
    have packed := faithful.decompress_compress admissible.small
    refine ⟨plain, packed, ?_⟩
    rintro files path (found | found)
    · rw [readFile_of_decompress found plain, accepted]
      rfl
    · rw [readFile_of_decompress found packed, accepted]
      rfl
  · intro b files path small found
    exact readFile_of_decompress found (faithful.decompress_compress small)

def fileOf (content : Bytes) : FileTree := ⟨[(⟨.work, ["f"]⟩, .file content)]⟩

def framelike : Bytes := Bytes.ofList [0x28, 0xb5, 0x2f, 0xfd, 0, 1, 2]

theorem compression_transparent_framelike :
    framelike.size ≤ Container.maxSize ∧
      Zstd.codec.decompress (Zstd.codec.compress framelike) = .ok framelike ∧
      ∃ c, Container.parse Container.padded = .ok c ∧
        Zstd.codec.decompress Container.padded = .ok Container.padded ∧
        Zstd.codec.decompress (Zstd.codec.compress Container.padded) = .ok Container.padded ∧
        Container.readFile Zstd.codec (fileOf (Zstd.codec.compress Container.padded)) "f" =
          .ok c := by
  have accepted : Container.parse Container.padded =
      .ok (.sections Container.padded (Header.read Container.padded)) := rfl
  obtain ⟨back, same, -⟩ := compression_transparent Zstd.faithful_codec
  obtain ⟨plain, packed, loads⟩ := same _ _ accepted
  have found : (fileOf (Zstd.codec.compress Container.padded)).read "f" =
      .ok (Zstd.codec.compress Container.padded) := by
    generalize Zstd.codec.compress Container.padded = content
    cbv
  exact ⟨by decide, back framelike (by decide), _, accepted, plain, packed,
    loads _ _ (.inr found)⟩

end Codec

end BytecodeVm
