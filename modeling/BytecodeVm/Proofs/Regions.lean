import BytecodeVm.Region
import Mathlib.Data.List.Forall2

/-! Region tables that agree. Two tables agree when their regions lie at the same places with the
same rights, one by one, and hold the same bytes wherever the rights belong to a chosen class.
Resolving an address gives the same answer in both, and a write to a region outside the class
keeps to the agreement. -/
namespace BytecodeVm

namespace Bytes

theorem size_overwrite (b : Bytes) (offset : Nat) (new : Bytes) :
    (b.overwrite offset new).size =
      min offset b.size + new.size + (b.size - (offset + new.size)) := by
  rw [overwrite, ByteArray.copySlice_eq_append]
  simp only [ByteArray.size_append, ByteArray.size_extract, ByteArray.size_data, Nat.sub_zero,
    Nat.zero_add, Nat.min_self]

theorem size_overwrite_of_le {b : Bytes} {offset : Nat} {new : Bytes}
    (inside : offset + new.size ≤ b.size) : (b.overwrite offset new).size = b.size := by
  rw [size_overwrite]
  omega

theorem size_slice_of_le {b : Bytes} {offset length : Nat} (inside : offset + length ≤ b.size) :
    (b.slice offset length).size = length := by
  rw [slice, ByteArray.size_extract]
  omega

end Bytes

/-- Regions at the same place with the same rights, and with the same bytes if the rights are
`fixed`. -/
structure Region.Agrees (fixed : Permission → Bool) (r r' : Region) : Prop where
  name : r.name = r'.name
  start : r.start = r'.start
  permission : r.permission = r'.permission
  size : r.bytes.size = r'.bytes.size
  bytes : fixed r.permission = true → r.bytes = r'.bytes

namespace Region

variable {fixed : Permission → Bool} {r r' r'' : Region}

theorem Agrees.refl (r : Region) : r.Agrees fixed r := ⟨rfl, rfl, rfl, rfl, fun _ => rfl⟩

theorem Agrees.trans (h : r.Agrees fixed r') (h' : r'.Agrees fixed r'') : r.Agrees fixed r'' where
  name := h.name.trans h'.name
  start := h.start.trans h'.start
  permission := h.permission.trans h'.permission
  size := h.size.trans h'.size
  bytes granted := (h.bytes granted).trans (h'.bytes (h.permission ▸ granted))

theorem Agrees.mono {fixed' : Permission → Bool} (h : r.Agrees fixed r')
    (fewer : ∀ p, fixed' p = true → fixed p = true) : r.Agrees fixed' r' :=
  { h with bytes := fun granted => h.bytes (fewer _ granted) }

theorem Agrees.eq (h : r.Agrees fixed r') (granted : fixed r.permission = true) : r = r' := by
  cases r
  cases r'
  obtain ⟨rfl, rfl, rfl, -, bytes⟩ := h
  obtain rfl := bytes granted
  rfl

theorem Agrees.holds (h : r.Agrees fixed r') (addr size : UInt64) :
    r.holds addr size = r'.holds addr size := by
  rw [Region.holds, Region.holds, Region.length, Region.length, h.start, h.size]

theorem offset_add_le_of_holds {addr size : UInt64} (h : r.holds addr size = true) :
    (addr - r.start).toNat + size.toNat ≤ r.bytes.size := by
  simp only [Region.holds, Bool.and_eq_true, decide_eq_true_eq, UInt64.le_iff_toNat_le] at h
  obtain ⟨⟨_, within⟩, fits⟩ := h
  have length : r.length.toNat ≤ r.bytes.size := by
    rw [Region.length, UInt64.toNat_ofNat']
    exact Nat.mod_le _ _
  rw [UInt64.toNat_sub_of_le r.length _ (UInt64.le_iff_toNat_le.mpr within)] at fits
  omega

end Region

structure RegionTable.Agrees (fixed : Permission → Bool) (t t' : RegionTable) : Prop where
  stack : t.stack.Agrees fixed t'.stack
  data : t.data.Agrees fixed t'.data
  rodata : t.rodata.Agrees fixed t'.rodata
  extensions : List.Forall₂ (Region.Agrees fixed) t.extensions t'.extensions
  argument : t.argument.Agrees fixed t'.argument

section

variable {α : Type} {R : α → α → Prop} {l l' : List α}

theorem forall₂_getElem? (h : List.Forall₂ R l l') (i : Nat) :
    (l[i]? = none ∧ l'[i]? = none) ∨ ∃ a b, l[i]? = some a ∧ l'[i]? = some b ∧ R a b := by
  induction h generalizing i with
  | nil => exact .inl ⟨rfl, rfl⟩
  | cons head _ ih =>
    cases i with
    | zero => exact .inr ⟨_, _, rfl, rfl, head⟩
    | succ i => simpa only [List.getElem?_cons_succ] using ih i

theorem forall₂_modify {f g : α → α} (h : List.Forall₂ R l l') (i : Nat)
    (kept : ∀ a b, l[i]? = some a → l'[i]? = some b → R a b → R (f a) (g b)) :
    List.Forall₂ R (l.modify i f) (l'.modify i g) := by
  induction h generalizing i with
  | nil => simp
  | cons head rest ih =>
    cases i with
    | zero => exact .cons (kept _ _ rfl rfl head) rest
    | succ i =>
      simp only [List.modify_succ_cons]
      exact .cons head (ih i fun a b => kept a b)

theorem findIdx?_of_forall₂ {p : α → Bool} (h : List.Forall₂ R l l')
    (same : ∀ a b, R a b → p a = p b) : l.findIdx? p = l'.findIdx? p := by
  induction h with
  | nil => rfl
  | cons head _ ih => rw [List.findIdx?_cons, List.findIdx?_cons, same _ _ head, ih]

end

namespace RegionTable

variable {fixed : Permission → Bool} {t t' t'' : RegionTable}

theorem Agrees.refl (t : RegionTable) : t.Agrees fixed t :=
  ⟨.refl _, .refl _, .refl _, List.forall₂_same.mpr fun r _ => .refl r, .refl _⟩

theorem forall₂_agrees_trans {l l' l'' : List Region}
    (h : List.Forall₂ (Region.Agrees fixed) l l')
    (h' : List.Forall₂ (Region.Agrees fixed) l' l'') :
    List.Forall₂ (Region.Agrees fixed) l l'' := by
  induction h generalizing l'' with
  | nil => exact h'
  | cons head _ ih =>
    cases h' with
    | cons head' rest' => exact .cons (head.trans head') (ih rest')

theorem Agrees.trans (h : t.Agrees fixed t') (h' : t'.Agrees fixed t'') : t.Agrees fixed t'' where
  stack := h.stack.trans h'.stack
  data := h.data.trans h'.data
  rodata := h.rodata.trans h'.rodata
  extensions := forall₂_agrees_trans h.extensions h'.extensions
  argument := h.argument.trans h'.argument

theorem Agrees.mono {fixed' : Permission → Bool} (h : t.Agrees fixed t')
    (fewer : ∀ p, fixed' p = true → fixed p = true) : t.Agrees fixed' t' where
  stack := h.stack.mono fewer
  data := h.data.mono fewer
  rodata := h.rodata.mono fewer
  extensions := h.extensions.imp fun _ _ agrees => agrees.mono fewer
  argument := h.argument.mono fewer

theorem Agrees.toList (h : t.Agrees fixed t') :
    List.Forall₂ (Region.Agrees fixed) t.toList t'.toList :=
  .cons h.stack (.cons h.data (.cons h.rodata
    (List.rel_append h.extensions (.cons h.argument .nil))))

theorem Agrees.region (h : t.Agrees fixed t') (i : Nat) :
    ((t.get? i).getD .blank).Agrees fixed ((t'.get? i).getD .blank) := by
  rcases forall₂_getElem? h.toList i with ⟨none, none'⟩ | ⟨r, r', some, some', agrees⟩
  · rw [get?, get?, none, none']
    exact .refl _
  · rw [get?, get?, some, some']
    exact agrees

theorem Agrees.locate (h : t.Agrees fixed t') (addr size : UInt64) (access : Permission) :
    t.locate addr size access = t'.locate addr size access := by
  rw [RegionTable.locate, RegionTable.locate,
    findIdx?_of_forall₂ h.toList fun _ _ agrees => agrees.holds addr size]
  split
  · rfl
  · split
    · rfl
    · rename_i i _
      have region := h.region i
      simp only [region.name, region.start, region.permission]

theorem get?_extension (t : RegionTable) {i : Nat} (h : i < t.extensions.length) :
    t.get? (i + 3) = t.extensions[i]? := by
  simp [get?, toList, List.getElem?_append_left h]

theorem get?_argument (t : RegionTable) : t.get? (t.extensions.length + 3) = some t.argument := by
  simp [get?, toList]

theorem Agrees.modifyBytes {f g : Bytes → Bytes} (h : t.Agrees fixed t') (i : Nat)
    (kept : ∀ r r', t.get? i = some r → t'.get? i = some r' → r.Agrees fixed r' →
      Region.Agrees fixed { r with bytes := f r.bytes } { r' with bytes := g r'.bytes }) :
    (t.modifyBytes i f).Agrees fixed (t'.modifyBytes i g) := by
  have count := h.extensions.length_eq
  match i with
  | 0 => exact { h with stack := kept _ _ rfl rfl h.stack }
  | 1 => exact { h with data := kept _ _ rfl rfl h.data }
  | 2 => exact { h with rodata := kept _ _ rfl rfl h.rodata }
  | i + 3 =>
    simp only [RegionTable.modifyBytes, ← count]
    split
    · rename_i inside
      rw [get?_extension t inside, get?_extension t' (count ▸ inside)] at kept
      exact { h with extensions := forall₂_modify h.extensions i kept }
    · split
      · rename_i last
        subst last
        have argument := get?_argument t'
        rw [← count] at argument
        exact { h with argument := kept _ _ (get?_argument t) argument h.argument }
      · exact h

theorem Agrees.put (h : t.Agrees fixed t') (place : Place) (bytes : Bytes) :
    (t.put place bytes).Agrees fixed (t'.put place bytes) := by
  refine h.modifyBytes place.index fun r r' _ _ agrees => { agrees with size := ?_, bytes := ?_ }
  · rw [Bytes.size_overwrite, Bytes.size_overwrite, agrees.size]
  · intro granted
    rw [agrees.bytes granted]

/-- The place of a range: a region that grants the access and holds the range. -/
structure Place.Grants (t : RegionTable) (place : Place) (size : Nat) (access : Permission)
    (r : Region) : Prop where
  found : t.get? place.index = some r
  granted : r.permission.allows access = true
  inside : place.offset + size ≤ r.bytes.size

theorem grants_of_locate {addr size : UInt64} {access : Permission} {place : Place}
    (h : t.locate addr size access = .ok place) :
    ∃ r, place.Grants t size.toNat access r := by
  unfold RegionTable.locate at h
  split at h
  · cases h
  · split at h
    · cases h
    · rename_i i first
      obtain ⟨inside, holds, -⟩ := List.findIdx?_eq_some_iff_getElem.mp first
      have found : t.get? i = some t.toList[i] := List.getElem?_eq_getElem inside
      simp only [found, Option.getD_some] at h
      split at h
      · rename_i granted
        cases h
        exact ⟨_, found, granted, Region.offset_add_le_of_holds holds⟩
      · cases h

theorem modifyBytes_id (t : RegionTable) (i : Nat) : t.modifyBytes i id = t := by
  match i with
  | 0 | 1 | 2 => rfl
  | i + 3 =>
    simp only [RegionTable.modifyBytes, id_eq]
    split
    · rw [show (fun r : Region => { r with bytes := r.bytes }) = id from rfl, List.modify_id]
    · split <;> rfl

theorem Place.Grants.agrees_put {place : Place} {bytes : Bytes} {access : Permission} {r : Region}
    (h : place.Grants t bytes.size access r) (free : fixed r.permission = false) :
    t.Agrees fixed (t.put place bytes) := by
  have same : t.Agrees fixed t := .refl t
  have kept := same.modifyBytes (f := id) (g := (·.overwrite place.offset bytes)) place.index
    fun r₁ r₂ found₁ found₂ agrees => by
      cases h.found.symm.trans found₁
      cases h.found.symm.trans found₂
      refine { agrees with size := ?_, bytes := ?_ }
      · exact (Bytes.size_overwrite_of_le h.inside).symm
      · intro granted
        rw [free] at granted
        cases granted
  rwa [modifyBytes_id] at kept

end RegionTable

end BytecodeVm
