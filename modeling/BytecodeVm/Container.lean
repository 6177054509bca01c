import BytecodeVm.Digest
import BytecodeVm.FileTree
import BytecodeVm.Hash.Blake3

/-! Containers: a header of eight little-endian 32-bit numbers, followed by the initial data, the
read-only data and the text. The bss section takes no bytes in the image. A file holds the image of
a container, or the image in compressed form. How bytes are compressed is left to a codec, of which
only this is asked: nothing is encoded as nothing, all else as a frame with a known beginning, and
what was encoded can be decoded as long as it is no larger than the greatest image. -/
namespace BytecodeVm

open Numeral

inductive ContainerError
  | tooLarge (size : Nat)
  | shortHeader (size : Nat)
  | badMagic (magic : UInt32)
  | shortSections (needed size : Nat)
deriving DecidableEq

structure Header where
  magic : UInt32
  version : UInt32
  flags : UInt32
  dataLen : UInt32
  bssLen : UInt32
  rodataLen : UInt32
  textLen : UInt32
  functions : UInt32
deriving DecidableEq

namespace Header

def size : Nat := 32

def magicNumber : UInt32 := 0x72425046

def field (b : Bytes) (offset : Nat) : UInt32 := UInt32.ofNat (b.number offset 4)

def parse (b : Bytes) : Except ContainerError Header :=
  if b.size < size then .error (.shortHeader b.size)
  else .ok {
    magic := field b 0
    version := field b 4
    flags := field b 8
    dataLen := field b 12
    bssLen := field b 16
    rodataLen := field b 20
    textLen := field b 24
    functions := field b 28 }

def fields (h : Header) : List UInt32 :=
  [h.magic, h.version, h.flags, h.dataLen, h.bssLen, h.rodataLen, h.textLen, h.functions]

def encode (h : Header) : Bytes :=
  Bytes.ofList (h.fields.flatMap fun x => LittleEndian.ofNat 4 x.toNat)

/-- The size of the mutable section: data and bss, rounded up to a multiple of four. -/
def mutableLen (h : Header) : UInt64 :=
  (h.dataLen.toUInt64 + h.bssLen.toUInt64 + 3) &&& ~~~3

end Header

structure Container where
  image : Bytes
  header : Header
  data : Bytes
  rodata : Bytes
  text : Bytes

structure ContainerSpec where
  version : UInt32
  flags : UInt32
  data : Bytes
  bssLen : UInt32
  rodata : Bytes
  text : Bytes
  functions : UInt32

namespace ContainerSpec

def header (s : ContainerSpec) : Header where
  magic := Header.magicNumber
  version := s.version
  flags := s.flags
  dataLen := UInt32.ofNat s.data.size
  bssLen := s.bssLen
  rodataLen := UInt32.ofNat s.rodata.size
  textLen := UInt32.ofNat s.text.size
  functions := s.functions

def build (s : ContainerSpec) : Bytes :=
  s.header.encode ++ s.data ++ s.rodata ++ s.text

end ContainerSpec

namespace Container

def maxSize : Nat := 16777216

def extent (h : Header) : Nat :=
  Header.size + h.dataLen.toNat + h.rodataLen.toNat + h.textLen.toNat

def sections (image : Bytes) (h : Header) : Container :=
  let rodataStart := Header.size + h.dataLen.toNat
  let textStart := rodataStart + h.rodataLen.toNat
  { image := image
    header := h
    data := image.slice Header.size h.dataLen.toNat
    rodata := image.slice rodataStart h.rodataLen.toNat
    text := image.slice textStart h.textLen.toNat }

def parse (image : Bytes) : Except ContainerError Container :=
  if maxSize < image.size then .error (.tooLarge image.size)
  else do
    let h ← Header.parse image
    if h.magic ≠ Header.magicNumber then .error (.badMagic h.magic)
    else if image.size < extent h then .error (.shortSections (extent h) image.size)
    else .ok (sections image h)

def digest (c : Container) : Digest :=
  match Digest.ofBytes (Blake3.digest c.image) with
  | .ok d => d
  | .error _ => .filled 0

end Container

def ContainerSpec.container (s : ContainerSpec) : Container := .sections s.build s.header

namespace ContainerError

def message : ContainerError → String
  | .tooLarge size =>
    "container too large: " ++ decimal size ++ " bytes (max " ++ decimal Container.maxSize ++ ")"
  | .shortHeader size =>
    "container truncated: " ++ decimal size ++ " bytes, header needs " ++ decimal Header.size
  | .badMagic magic => "bad container magic: 0x" ++ padLeft '0' 8 (hex magic.toNat)
  | .shortSections needed size =>
    "container truncated: sections need " ++ decimal needed ++ " bytes, image has " ++ decimal size

instance : Failure ContainerError := { message := message }

end ContainerError

/-- The container that an image is sure to hold, or the text of the panic if it does not. -/
def Container.mustParse (image : Bytes) : Except String Container :=
  (parse image).mapError fun e => "container: " ++ e.message

/-! ## Files -/

structure Codec where
  encode : Bytes → Bytes
  decode : Bytes → Except String Bytes

namespace Codec

def magic : Bytes := Bytes.ofList [0x28, 0xb5, 0x2f, 0xfd]

structure Faithful (z : Codec) : Prop where
  empty : z.encode (Bytes.zeros 0) = Bytes.zeros 0
  framed : ∀ b, b.size ≠ 0 → ((z.encode b).slice 0 4).toList = magic.toList
  inverse : ∀ b, b.size ≠ 0 → b.size ≤ Container.maxSize → z.decode (z.encode b) = .ok b

def compress (z : Codec) (b : Bytes) : Bytes := z.encode b

/-- Bytes that do not start like a frame are taken as they are. -/
def decompress (z : Codec) (b : Bytes) : Except String Bytes :=
  if (b.slice 0 4).toList = magic.toList then z.decode b else .ok b

end Codec

inductive FileError
  | unreadable (path : String) (e : PathError)
  | codec (message : String)
  | container (e : ContainerError)

/-- A directory is found out in reading only. -/
def PathError.readMessage (path : String) (e : PathError) : String :=
  (if e = .directory then "read " else "open ") ++ path ++ ": " ++ e.text

def FileError.message : FileError → String
  | .unreadable path e => "read container: " ++ e.readMessage path
  | .codec message => "decompress container: " ++ message
  | .container e => e.message

def Container.readFile (z : Codec) (files : FileTree) (path : String) :
    Except FileError Container := do
  let raw ← (files.read path).mapError (.unreadable path)
  let image ← (z.decompress raw).mapError .codec
  (Container.parse image).mapError .container

end BytecodeVm
