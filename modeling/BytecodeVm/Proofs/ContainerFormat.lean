import BytecodeVm.Container
import BytecodeVm.Instruction
import BytecodeVm.Proofs.ByteStrings

/-! The container format. An image is accepted exactly if it is not too large and begins with a
header whose magic number is right and whose sections fit; what is read from it is a beginning of
the image, and building the parts that were read gives that beginning again. Conversely what is
built is read back, unless it is too large. -/
namespace BytecodeVm

namespace Header

def read (image : Bytes) : Header where
  magic := field image 0
  version := field image 4
  flags := field image 8
  dataLen := field image 12
  bssLen := field image 16
  rodataLen := field image 20
  textLen := field image 24
  functions := field image 28

theorem fields_read (image : Bytes) :
    (read image).fields = (List.range 8).map fun k => field image (4 * k) := rfl

theorem toList_encode (h : Header) :
    h.encode.toList = h.fields.flatMap fun x => LittleEndian.ofNat 4 x.toNat :=
  Bytes.toList_ofList _

theorem size_encode (h : Header) : h.encode.size = size := by
  rw [encode, Bytes.size_ofList]
  simp [fields, size]

theorem bytes_field {image : Bytes} {offset : Nat} (inside : offset + 4 ≤ image.size) :
    LittleEndian.ofNat 4 (field image offset).toNat = (image.toList.drop offset).take 4 := by
  have length : ((image.toList.drop offset).take 4).length = 4 := by
    rw [List.length_take, List.length_drop, Bytes.length_toList]
    omega
  have bound := LittleEndian.toNat_lt ((image.toList.drop offset).take 4)
  have back := LittleEndian.ofNat_toNat ((image.toList.drop offset).take 4)
  rw [length] at bound back
  rw [field, Bytes.number, Bytes.toList_slice, UInt32.toNat_ofNat_of_lt' bound, back]

theorem toList_encode_read {image : Bytes} (enough : size ≤ image.size) :
    (read image).encode.toList = image.toList.take size := by
  have fields : ((List.range 8).flatMap fun k => LittleEndian.ofNat 4 (field image (4 * k)).toNat) =
      (List.range 8).flatMap fun k => (image.toList.drop (4 * k)).take 4 := by
    rw [List.flatMap_def, List.flatMap_def, List.map_congr_left]
    intro k inside
    have inside := List.mem_range.mp inside
    rw [size] at enough
    exact bytes_field (by omega)
  rw [toList_encode, fields_read, List.flatMap_map, fields, Blocks.flatMap_take_drop, size]

theorem field_encode (h : Header) (rest : Bytes) {k : Nat} {x : UInt32}
    (item : h.fields[k]? = some x) : field (h.encode ++ rest) (4 * k) = x := by
  have even (x : UInt32) : (LittleEndian.ofNat 4 x.toNat).length = 4 :=
    LittleEndian.length_ofNat 4 x.toNat
  rw [field, Bytes.number, Bytes.toList_slice, Bytes.toList_append, toList_encode,
    Blocks.take_drop_flatMap even _ _ item, LittleEndian.toNat_ofNat_of_lt x.toNat_lt,
    UInt32.ofNat_toNat]

theorem read_encode (h : Header) (rest : Bytes) : read (h.encode ++ rest) = h := by
  have magic := h.field_encode rest (k := 0) rfl
  have version := h.field_encode rest (k := 1) rfl
  have flags := h.field_encode rest (k := 2) rfl
  have dataLen := h.field_encode rest (k := 3) rfl
  have bssLen := h.field_encode rest (k := 4) rfl
  have rodataLen := h.field_encode rest (k := 5) rfl
  have textLen := h.field_encode rest (k := 6) rfl
  have functions := h.field_encode rest (k := 7) rfl
  rw [read, magic, version, flags, dataLen, bssLen, rodataLen, textLen, functions]

theorem parse_eq (image : Bytes) :
    parse image =
      if image.size < size then .error (.shortHeader image.size) else .ok (read image) :=
  rfl

end Header

namespace Container

def spec (c : Container) : ContainerSpec where
  version := c.header.version
  flags := c.header.flags
  data := c.data
  bssLen := c.header.bssLen
  rodata := c.rodata
  text := c.text
  functions := c.header.functions

def body (c : Container) : Bytes := c.header.encode ++ c.data ++ c.rodata ++ c.text

/-- The sections have the sizes that the header says. -/
structure Genuine (c : Container) : Prop where
  data : c.data.size = c.header.dataLen.toNat
  rodata : c.rodata.size = c.header.rodataLen.toNat
  text : c.text.size = c.header.textLen.toNat

/-- The images that are containers. -/
structure Admissible (image : Bytes) : Prop where
  small : image.size ≤ maxSize
  header : Header.size ≤ image.size
  magic : (Header.read image).magic = Header.magicNumber
  sections : Header.size + (Header.read image).dataLen.toNat +
    (Header.read image).rodataLen.toNat + (Header.read image).textLen.toNat ≤ image.size

end Container

/-- The images to which an error applies, each error after those that go before it. -/
def ContainerError.Explains (image : Bytes) : ContainerError → Prop
  | .tooLarge size => Container.maxSize < image.size ∧ size = image.size
  | .shortHeader size =>
    image.size ≤ Container.maxSize ∧ image.size < Header.size ∧ size = image.size
  | .badMagic magic =>
    image.size ≤ Container.maxSize ∧ Header.size ≤ image.size ∧
      (Header.read image).magic ≠ Header.magicNumber ∧ magic = (Header.read image).magic
  | .shortSections needed size =>
    image.size ≤ Container.maxSize ∧ Header.size ≤ image.size ∧
      (Header.read image).magic = Header.magicNumber ∧ image.size < needed ∧
      needed = Header.size + (Header.read image).dataLen.toNat +
        (Header.read image).rodataLen.toNat + (Header.read image).textLen.toNat ∧
      size = image.size

namespace Container

variable {image : Bytes}

theorem parse_of_admissible (h : Admissible image) :
    parse image = .ok (sections image (Header.read image)) := by
  have fits : ¬ image.size < extent (Header.read image) := Nat.not_lt.mpr h.sections
  simp [parse, Header.parse_eq, Nat.not_lt.mpr h.small, Nat.not_lt.mpr h.header, h.magic, fits,
    bind, Except.bind]

theorem parse_of_explains {e : ContainerError} (h : e.Explains image) : parse image = .error e := by
  cases e with
  | tooLarge size =>
    obtain ⟨large, rfl⟩ := h
    exact if_pos large
  | shortHeader size =>
    obtain ⟨small, short, rfl⟩ := h
    simp [parse, Header.parse_eq, Nat.not_lt.mpr small, short, bind, Except.bind]
  | badMagic magic =>
    obtain ⟨small, header, wrong, rfl⟩ := h
    simp [parse, Header.parse_eq, Nat.not_lt.mpr small, Nat.not_lt.mpr header, wrong, bind,
      Except.bind]
  | shortSections needed size =>
    obtain ⟨small, header, magic, short, rfl, rfl⟩ := h
    simp [parse, Header.parse_eq, Nat.not_lt.mpr small, Nat.not_lt.mpr header, magic, extent, short,
      bind, Except.bind]

theorem admissible_or_explains (image : Bytes) :
    Admissible image ∨ ∃ e : ContainerError, e.Explains image := by
  by_cases small : image.size ≤ maxSize
  · by_cases header : Header.size ≤ image.size
    · by_cases magic : (Header.read image).magic = Header.magicNumber
      · by_cases fits : extent (Header.read image) ≤ image.size
        · exact .inl ⟨small, header, magic, fits⟩
        · exact .inr ⟨.shortSections _ _, small, header, magic, Nat.not_le.mp fits, rfl, rfl⟩
      · exact .inr ⟨.badMagic _, small, header, magic, rfl⟩
    · exact .inr ⟨.shortHeader _, small, Nat.not_le.mp header, rfl⟩
  · exact .inr ⟨.tooLarge _, Nat.not_le.mp small, rfl⟩

theorem admissible_of_parse {c : Container} (accepted : parse image = .ok c) :
    Admissible image := by
  rcases admissible_or_explains image with admissible | ⟨e, applies⟩
  · exact admissible
  · cases (parse_of_explains applies).symm.trans accepted

theorem eq_sections_of_parse {c : Container} (accepted : parse image = .ok c) :
    c = sections image (Header.read image) :=
  Except.ok.inj (accepted.symm.trans (parse_of_admissible (admissible_of_parse accepted)))

theorem explains_of_parse {e : ContainerError} (refused : parse image = .error e) :
    e.Explains image := by
  rcases admissible_or_explains image with admissible | ⟨e', applies⟩
  · cases (parse_of_admissible admissible).symm.trans refused
  · cases (parse_of_explains applies).symm.trans refused
    exact applies

/-! ## From images to containers and back -/

theorem toList_body (h : Admissible image) :
    (sections image (Header.read image)).body.toList =
      image.toList.take (extent (Header.read image)) := by
  rw [body, Bytes.toList_append, Bytes.toList_append, Bytes.toList_append, sections,
    Header.toList_encode_read h.header, Bytes.toList_slice, Bytes.toList_slice, Bytes.toList_slice,
    extent, List.take_add, List.take_add, List.take_add]

theorem exists_rest (h : Admissible image) :
    ∃ rest, image = (sections image (Header.read image)).body ++ rest := by
  refine ⟨Bytes.ofList (image.toList.drop (extent (Header.read image))), Bytes.ext_toList ?_⟩
  rw [Bytes.toList_append, toList_body h, Bytes.toList_ofList, List.take_append_drop]

theorem size_section {offset : Nat} {length : UInt32}
    (inside : offset + length.toNat ≤ image.size) :
    (image.slice offset length.toNat).size = length.toNat := by
  rw [Bytes.slice, ByteArray.size_extract]
  omega

theorem genuine_sections (h : Admissible image) :
    (sections image (Header.read image)).Genuine := by
  have fits := h.sections
  exact ⟨size_section (by omega), size_section (by omega), size_section (by omega)⟩

theorem genuine_of_parse {c : Container} (accepted : parse image = .ok c) : c.Genuine := by
  rw [eq_sections_of_parse accepted]
  exact genuine_sections (admissible_of_parse accepted)

theorem header_spec (h : Admissible image) :
    (sections image (Header.read image)).spec.header = Header.read image := by
  obtain ⟨data, rodata, text⟩ := genuine_sections h
  simp only [ContainerSpec.header, spec, data, rodata, text, UInt32.ofNat_toNat, ← h.magic]
  rfl

theorem build_spec (h : Admissible image) :
    (sections image (Header.read image)).spec.build =
      (sections image (Header.read image)).body := by
  rw [ContainerSpec.build, header_spec h]
  rfl

end Container

namespace ContainerSpec

variable (s : ContainerSpec)

def size : Nat := Header.size + s.data.size + s.rodata.size + s.text.size

theorem size_build : s.build.size = s.size := by
  simp only [build, ByteArray.size_append, Header.size_encode, size]

theorem read_build : Header.read s.build = s.header := by
  rw [build, ByteArray.append_assoc, ByteArray.append_assoc, Header.read_encode]

variable {s}

theorem lengths_header (small : s.size ≤ Container.maxSize) :
    s.header.dataLen.toNat = s.data.size ∧ s.header.rodataLen.toNat = s.rodata.size ∧
      s.header.textLen.toNat = s.text.size := by
  rw [size, Container.maxSize] at small
  refine ⟨UInt32.toNat_ofNat_of_lt' ?_, UInt32.toNat_ofNat_of_lt' ?_,
    UInt32.toNat_ofNat_of_lt' ?_⟩ <;> rw [UInt32.size] <;> omega

theorem admissible_build (small : s.size ≤ Container.maxSize) :
    Container.Admissible s.build := by
  obtain ⟨data, rodata, text⟩ := lengths_header small
  refine ⟨?_, ?_, ?_, ?_⟩
  · rwa [size_build]
  · rw [size_build, size]
    omega
  · rw [read_build]
    rfl
  · rw [read_build, size_build, data, rodata, text]
    exact Nat.le_refl s.size

theorem spec_sections (small : s.size ≤ Container.maxSize) :
    (Container.sections s.build s.header).spec = s := by
  obtain ⟨data, rodata, text⟩ := lengths_header small
  have whole : s.build.HasAt 0 (s.header.encode ++ s.data ++ s.rodata ++ s.text) :=
    Bytes.HasAt.whole s.build
  have atData := whole.left.left.right.slice
  have atRodata := whole.left.right.slice
  have atText := whole.right.slice
  simp only [ByteArray.size_append, Header.size_encode, Nat.zero_add] at atData atRodata atText
  simp only [Container.spec, Container.sections, data, rodata, text, atData, atRodata, atText]
  rfl

end ContainerSpec

namespace Container

/-- Reading an image and building from parts are inverse to each other. The first half is about all
images: which are accepted, that what is read from them is their beginning, and which error all
others get. The second is about all parts that a container can be built from. -/
theorem format_exact :
    (∀ image : Bytes,
      ((∃ c, parse image = .ok c) ↔ Admissible image) ∧
      (∀ c, parse image = .ok c →
        c.image = image ∧ c.header = Header.read image ∧
        c.data.size = c.header.dataLen.toNat ∧ c.rodata.size = c.header.rodataLen.toNat ∧
        c.text.size = c.header.textLen.toNat ∧
        (∃ rest, image = c.header.encode ++ c.data ++ c.rodata ++ c.text ++ rest) ∧
        c.spec.build = c.header.encode ++ c.data ++ c.rodata ++ c.text) ∧
      ∀ e, parse image = .error e ↔ e.Explains image) ∧
    ∀ s : ContainerSpec,
      ((∃ c, parse s.build = .ok c) ↔
        Header.size + s.data.size + s.rodata.size + s.text.size ≤ maxSize) ∧
      (∀ c, parse s.build = .ok c → c.spec = s) ∧
      (maxSize < Header.size + s.data.size + s.rodata.size + s.text.size →
        parse s.build = .error (.tooLarge s.build.size)) := by
  constructor
  · intro image
    refine ⟨⟨?_, ?_⟩, ?_, fun e => ⟨explains_of_parse, parse_of_explains⟩⟩
    · rintro ⟨c, accepted⟩
      exact admissible_of_parse accepted
    · intro admissible
      exact ⟨_, parse_of_admissible admissible⟩
    · intro c accepted
      have admissible := admissible_of_parse accepted
      obtain rfl := eq_sections_of_parse accepted
      obtain ⟨data, rodata, text⟩ := genuine_sections admissible
      exact ⟨rfl, rfl, data, rodata, text, exists_rest admissible, build_spec admissible⟩
  · intro s
    have built := s.size_build
    refine ⟨⟨?_, ?_⟩, ?_, ?_⟩
    · rintro ⟨c, accepted⟩
      have small := (admissible_of_parse accepted).small
      rwa [built] at small
    · intro small
      exact ⟨_, parse_of_admissible (ContainerSpec.admissible_build small)⟩
    · intro c accepted
      have small := (admissible_of_parse accepted).small
      rw [built] at small
      rw [eq_sections_of_parse accepted, s.read_build]
      exact ContainerSpec.spec_sections small
    · intro large
      refine parse_of_explains ⟨?_, rfl⟩
      rwa [built]

def padded : Bytes :=
  ContainerSpec.build ⟨1, 2, Bytes.ofList [10, 11, 12], 5, Bytes.ofList [20],
    Text.assemble [0x95], 9⟩ ++ Bytes.ofList [7, 7]

theorem format_exact_padded :
    Admissible padded ∧ ∃ c, parse padded = .ok c ∧ c.data.size = 3 ∧ c.rodata.size = 1 ∧
      c.text.size = 8 ∧ ∃ rest, padded = c.spec.build ++ rest := by
  have admissible : Admissible padded := ⟨by decide, by decide, by decide, by decide⟩
  obtain ⟨accepts, reads, -⟩ := format_exact.1 padded
  obtain ⟨c, accepted⟩ := accepts.mpr admissible
  obtain ⟨-, header, data, rodata, text, rest, build⟩ := reads c accepted
  rw [header] at data rodata text
  rw [← build] at rest
  exact ⟨admissible, c, accepted, data, rodata, text, rest⟩

end Container

end BytecodeVm
