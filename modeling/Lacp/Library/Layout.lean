import Mathlib.Data.List.Basic
import Mathlib.Data.Nat.Notation
import Mathlib.Order.MinMax
import Mathlib.Tactic.Set

/-!
# The image of a C object in memory

An `Image` is what an object of a C type looks like on a little-endian machine: the alignment of its
type and the bytes of the object, a whole number of alignment units. Scalars and arrays of bytes are
the leaves; `Image.struct` places members one behind the other, each on its own alignment, and fills
the gaps and the tail with zero bytes, as an object does that was cleared before its members were
assigned.

`Visits` reads such an image the other way: it walks over type-length-value items by the length bytes
the items carry.
-/

namespace Layout

/-! ## Padding -/

/-- The number of bytes from `n` up to the next multiple of `align`. -/
def padding (align n : ℕ) : ℕ := (align - n % align) % align

/-- Fill up with zero bytes to a multiple of `align`. -/
def padTo (align : ℕ) (bytes : List UInt8) : List UInt8 :=
  bytes ++ List.replicate (padding align bytes.length) 0

theorem add_padding_mod {align : ℕ} (h : 0 < align) (n : ℕ) : (n + padding align n) % align = 0 := by
  have hlt : n % align < align := Nat.mod_lt n h
  simp only [padding, Nat.add_mod_mod]
  by_cases hzero : n % align = 0
  · simp [hzero]
  · have hsum : n % align + (align - n % align) = align := by omega
    rw [Nat.add_mod, Nat.mod_eq_of_lt (show align - n % align < align by omega), hsum, Nat.mod_self]

theorem length_padTo_mod {align : ℕ} (h : 0 < align) (bytes : List UInt8) :
    (padTo align bytes).length % align = 0 := by
  simpa [padTo] using add_padding_mod h bytes.length

theorem prefix_padTo (align : ℕ) (bytes : List UInt8) : bytes <+: padTo align bytes :=
  List.prefix_append _ _

/-! ## Objects -/

/-- An object in memory. -/
structure Image where
  align : ℕ
  bytes : List UInt8
  align_pos : 0 < align
  size_mod : bytes.length % align = 0

/-- The object's `sizeof`. -/
def Image.size (m : Image) : ℕ := m.bytes.length

/-- An `unsigned char`. -/
def Image.char (x : UInt8) : Image where
  align := 1
  bytes := [x]
  align_pos := by decide
  size_mod := by simp

/-- An `unsigned short`, low byte first. -/
def Image.short (x : UInt16) : Image where
  align := 2
  bytes := [x.toUInt8, (x >>> 8).toUInt8]
  align_pos := by decide
  size_mod := by simp

/-- An array of `unsigned char`. -/
def Image.chars (xs : List UInt8) : Image where
  align := 1
  bytes := xs
  align_pos := by decide
  size_mod := Nat.mod_one _

@[simp] theorem Image.char_align (x : UInt8) : (Image.char x).align = 1 := rfl
@[simp] theorem Image.char_bytes (x : UInt8) : (Image.char x).bytes = [x] := rfl
@[simp] theorem Image.short_align (x : UInt16) : (Image.short x).align = 2 := rfl
@[simp] theorem Image.chars_align (xs : List UInt8) : (Image.chars xs).align = 1 := rfl
@[simp] theorem Image.chars_bytes (xs : List UInt8) : (Image.chars xs).bytes = xs := rfl

/-- Place one more member behind the bytes laid out so far. -/
def place (laid : List UInt8) (m : Image) : List UInt8 := padTo m.align laid ++ m.bytes

/-- The largest alignment of the members. -/
def structAlign (members : List Image) : ℕ := members.foldr (fun m n => max m.align n) 1

theorem structAlign_pos (members : List Image) : 0 < structAlign members := by
  induction members with
  | nil => exact Nat.one_pos
  | cons m members ih => exact lt_max_of_lt_right ih

/-- A `struct` with these members. -/
def Image.struct (members : List Image) : Image where
  align := structAlign members
  bytes := padTo (structAlign members) (members.foldl place [])
  align_pos := structAlign_pos members
  size_mod := length_padTo_mod (structAlign_pos members) _

/-- The `offsetof` of the member that follows `before`. -/
def offset (before : List Image) (m : Image) : ℕ := (padTo m.align (before.foldl place [])).length

/-! ## Reading an image -/

/-- The `n` bytes from `off` on. -/
def bytesAt (image : List UInt8) (off n : ℕ) : List UInt8 := (image.drop off).take n

theorem bytesAt_append_left {xs ys : List UInt8} {off n : ℕ} (h : off + n ≤ xs.length) :
    bytesAt (xs ++ ys) off n = bytesAt xs off n := by
  simp only [bytesAt]
  rw [List.drop_append_of_le_length (by omega), List.take_append_of_le_length (by simp; omega)]

theorem bytesAt_append_right (xs ys : List UInt8) (n : ℕ) :
    bytesAt (xs ++ ys) xs.length n = ys.take n := by
  simp [bytesAt]

/-- Bytes of a part are bytes of the whole. -/
theorem bytesAt_bytesAt {image : List UInt8} {off size k n : ℕ} (hle : k + n ≤ size) :
    bytesAt (bytesAt image off size) k n = bytesAt image (off + k) n := by
  have hmin : min n (size - k) = n := by omega
  simp only [bytesAt]
  rw [List.drop_take, List.take_take, List.drop_drop, hmin]

/-- What stands in the bytes `xs` stands in every image that begins with them. -/
theorem bytesAt_prefix_eq {xs image : List UInt8} {off n : ℕ} (h : xs <+: image)
    (hle : off + n ≤ xs.length) : bytesAt image off n = bytesAt xs off n := by
  obtain ⟨ys, rfl⟩ := h
  exact bytesAt_append_left hle

theorem prefix_foldl_place (laid : List UInt8) (members : List Image) :
    laid <+: members.foldl place laid := by
  induction members generalizing laid with
  | nil => exact List.prefix_refl _
  | cons m members ih =>
    have hplace : laid <+: place laid m :=
      (prefix_padTo m.align laid).trans (List.prefix_append _ _)
    exact hplace.trans (ih _)

/-- A member's bytes stand at its offset. -/
theorem bytesAt_struct (before : List Image) (m : Image) (after : List Image) :
    bytesAt (Image.struct (before ++ m :: after)).bytes (offset before m) m.size = m.bytes := by
  set laid := before.foldl place [] with hlaid
  have hprefix : place laid m <+: (Image.struct (before ++ m :: after)).bytes := by
    have hfold : (before ++ m :: after).foldl place [] = after.foldl place (place laid m) := by
      rw [List.foldl_append, List.foldl_cons]
    have hstruct : (Image.struct (before ++ m :: after)).bytes
        = padTo (structAlign (before ++ m :: after)) (after.foldl place (place laid m)) := by
      rw [← hfold]
      rfl
    rw [hstruct]
    exact (prefix_foldl_place _ after).trans (prefix_padTo _ _)
  have hoffset : offset before m = (padTo m.align laid).length := rfl
  rw [bytesAt_prefix_eq hprefix (by simp [place, hoffset, Image.size]), hoffset]
  show bytesAt (padTo m.align laid ++ m.bytes) _ _ = _
  rw [bytesAt_append_right]
  exact List.take_length

/-- The offsets of members that are placed from byte `n` on. -/
def layout : ℕ → List Image → List (ℕ × Image)
  | _, [] => []
  | n, m :: members =>
    (n + padding m.align n, m) :: layout (n + padding m.align n + m.size) members

/-- A member is placed at the offset the layout gives. -/
theorem exists_prefix_of_layout {laid : List UInt8} {members : List Image} {off : ℕ} {m : Image}
    (h : (off, m) ∈ layout laid.length members) :
    ∃ front, front.length = off ∧ front ++ m.bytes <+: members.foldl place laid := by
  induction members generalizing laid with
  | nil => cases h
  | cons m' members ih =>
    rcases List.mem_cons.mp h with heq | hrest
    · obtain ⟨rfl, rfl⟩ := Prod.mk.inj heq
      exact ⟨padTo m.align laid, by simp [padTo], prefix_foldl_place (place laid m) members⟩
    · have hlength : (place laid m').length
          = laid.length + padding m'.align laid.length + m'.size := by
        simp [place, padTo, Image.size, Nat.add_assoc]
      exact ih (by rwa [hlength])

/-- The object `m` stands at `off`. -/
def StandsAt (image : List UInt8) (off : ℕ) (m : Image) : Prop := bytesAt image off m.size = m.bytes

theorem standsAt_self (m : Image) : StandsAt m.bytes 0 m := List.take_length

/-- Where a `struct` stands, its members stand at the offsets the layout gives. -/
theorem StandsAt.member {image : List UInt8} {off k : ℕ} {members : List Image} {m : Image}
    (h : StandsAt image off (.struct members)) (hm : (k, m) ∈ layout 0 members) :
    StandsAt image (off + k) m := by
  obtain ⟨front, rfl, hprefix⟩ :=
    (exists_prefix_of_layout hm : ∃ front : List UInt8, front.length = k ∧
      front ++ m.bytes <+: members.foldl place [])
  have hstruct : front ++ m.bytes <+: (Image.struct members).bytes :=
    hprefix.trans (prefix_padTo _ _)
  have hle : front.length + m.size ≤ (Image.struct members).size := by
    simpa [Image.size] using hstruct.length_le
  rw [StandsAt, ← bytesAt_bytesAt hle, h, bytesAt_prefix_eq hstruct (by simp [Image.size]),
    bytesAt_append_right]
  exact List.take_length

/-! ## Reading scalars -/

/-- The `unsigned char` at `off`. -/
def charAt (image : List UInt8) (off : ℕ) : UInt8 := image.getD off 0

/-- The `unsigned short` at `off`. -/
def shortAt (image : List UInt8) (off : ℕ) : UInt16 :=
  (charAt image off).toUInt16 ||| (charAt image (off + 1)).toUInt16 <<< 8

/-- A byte of an object. -/
theorem StandsAt.charAt {image : List UInt8} {off : ℕ} {m : Image} (h : StandsAt image off m) {k : ℕ}
    (hk : k < m.size) : charAt image (off + k) = m.bytes.getD k 0 := by
  have hbytes : bytesAt image off m.size = m.bytes := h
  rw [← hbytes]
  simp [Layout.charAt, bytesAt, hk]

theorem StandsAt.char {image : List UInt8} {off : ℕ} {x : UInt8} (h : StandsAt image off (.char x)) :
    Layout.charAt image off = x := h.charAt (k := 0) Nat.one_pos

theorem StandsAt.short {image : List UInt8} {off : ℕ} {x : UInt16}
    (h : StandsAt image off (.short x)) : shortAt image off = x := by
  have hlow : Layout.charAt image off = x.toUInt8 := h.charAt (k := 0) Nat.zero_lt_two
  have hhigh : Layout.charAt image (off + 1) = (x >>> 8).toUInt8 := h.charAt (k := 1) Nat.one_lt_two
  rw [shortAt, hlow, hhigh]
  apply UInt16.toBitVec_inj.mp
  apply BitVec.eq_of_getLsbD_eq
  intro i hi
  simp only [UInt16.toBitVec_or, UInt16.toBitVec_shiftLeft, UInt8.toBitVec_toUInt16,
    UInt16.toBitVec_toUInt8, UInt16.toBitVec_shiftRight, BitVec.getLsbD_or, BitVec.getLsbD_setWidth]
  by_cases hi8 : i < 8
  · simp [hi, hi8]
  · have hback : 8 + (i - 8) = i := by omega
    have hlt : i - 8 < 8 ∧ i - 8 < 16 := by omega
    simp [hi, hi8, hback, hlt]

/-- What is read depends only on the bytes that are read. -/
theorem charAt_congr {image image' : List UInt8} {off : ℕ} (h : image[off]? = image'[off]?) :
    charAt image off = charAt image' off := by
  rw [charAt, charAt, List.getD_eq_getElem?_getD, List.getD_eq_getElem?_getD, h]

/-! ## Type-length-value items -/

/-- An item of a type-length-value sequence, where it was found. -/
structure Tlv where
  offset : ℕ
  type : UInt8
  length : UInt8
deriving DecidableEq, Repr

/-- `Visits image off items`: the walk from `off` meets `items`. An item's length counts its type and
its length byte too, and an item of type 0 ends the walk. -/
inductive Visits (image : List UInt8) : ℕ → List Tlv → Prop
  | terminator {off : ℕ} {length : UInt8} (htype : image[off]? = some 0)
      (hlength : image[off + 1]? = some length) : Visits image off [⟨off, 0, length⟩]
  | item {off : ℕ} {type length : UInt8} {items : List Tlv} (htype : image[off]? = some type)
      (hne : type ≠ 0) (hlength : image[off + 1]? = some length)
      (hrest : Visits image (off + length.toNat) items) :
      Visits image off (⟨off, type, length⟩ :: items)

/-- There is one walk from an offset at most. -/
theorem Visits.unique {image : List UInt8} {off : ℕ} {items items' : List Tlv}
    (h : Visits image off items) (h' : Visits image off items') : items = items' := by
  induction h generalizing items' with
  | terminator htype hlength =>
    cases h' with
    | terminator _ hlength' =>
      obtain rfl := Option.some.inj (hlength.symm.trans hlength')
      rfl
    | item htype' hne => exact absurd (Option.some.inj (htype.symm.trans htype')).symm hne
  | item htype hne hlength _ ih =>
    cases h' with
    | terminator htype' => exact absurd (Option.some.inj (htype.symm.trans htype')) hne
    | item htype' _ hlength' hrest' =>
      obtain rfl := Option.some.inj (htype.symm.trans htype')
      obtain rfl := Option.some.inj (hlength.symm.trans hlength')
      rw [ih hrest']

end Layout
