import Osmium.Memory.Buffer
import Osmium.Osm.Types

/-!
# Items and the layout of their fixed parts

Every record the builders write is an item: a header holding the item's size and kind, followed by
the kind's fixed fields and then by its variable part (strings, sub-records, sub-items). The size is
the item's logical length; its extent in the buffer is that length padded to `align_bytes`.

Modelled from the spec: `osmium/memory/item.hpp` and the `osmium/osm/*.hpp` headers that fix the
fixed parts are not part of the sources modelled here. The header is the `item_size_type` size
(4 bytes), the `item_type` code (2 bytes) and the flags (2 bytes, clear on a new item). The sizes of
the fixed parts are a `Layout`: each holds the header, is a whole number of alignment units (the
headers check this with a `static_assert`) and is small. Construction zero-initialises the fixed
fields after the header (`Layout.image`).

* `byteSize_itemHeader_append`: the size an item's header stores, read back.
* `writeBytes_itemHeader_add`: `add_size` on an item rewrites its header with the grown size.
-/

namespace Osmium.Memory

/-- The length of the item header. -/
def itemHeaderSize : ℕ := 8

/-- The header of an item of kind `type` whose size is `size`, with its flags clear. -/
def itemHeader (size : ℕ) (type : ItemType) : List UInt8 :=
  encodeLE 4 size ++ encodeLE 2 type.code ++ [0, 0]

/-- `Item::byte_size()` of the item at `offset`. -/
def byteSize (data : List UInt8) (offset : ℕ) : ℕ := readLE data offset 4

@[simp]
theorem length_itemHeader (size : ℕ) (type : ItemType) : (itemHeader size type).length = itemHeaderSize := by
  simp [itemHeader, itemHeaderSize]

/-- The size of an item is read from the item's own bytes. -/
theorem byteSize_eq_drop (data : List UInt8) (offset : ℕ) : byteSize data offset = byteSize (data.drop offset) 0 :=
  rfl

/-- An item's bytes are its size field and the rest of its header and content. -/
private theorem itemHeader_append (size : ℕ) (type : ItemType) (rest : List UInt8) :
    itemHeader size type ++ rest = encodeLE 4 size ++ (encodeLE 2 type.code ++ [0, 0] ++ rest) := by
  simp only [itemHeader, List.append_assoc]

/-- The size an item header stores, modulo the range of `item_size_type`. -/
@[simp]
theorem byteSize_itemHeader_append (size : ℕ) (type : ItemType) (rest : List UInt8) :
    byteSize (itemHeader size type ++ rest) 0 = size % 2 ^ 32 := by
  rw [byteSize, readLE, readBytes, List.drop_zero, itemHeader_append,
    List.take_left' (length_encodeLE 4 size), decodeLE_encodeLE, two_pow_32]

/-- The size field of an item whose bytes are known. -/
theorem byteSize_of_drop_eq {data rest : List UInt8} {offset size : ℕ} {type : ItemType}
    (h : data.drop offset = itemHeader size type ++ rest) : byteSize data offset = size % 2 ^ 32 := by
  rw [byteSize_eq_drop, h, byteSize_itemHeader_append]

/-- The header fields are the same for sizes equal modulo `2 ^ 32`. -/
theorem itemHeader_mod (size : ℕ) (type : ItemType) : itemHeader (size % 2 ^ 32) type = itemHeader size type := by
  rw [itemHeader, itemHeader, two_pow_32, encodeLE_mod]

/-- `Item::add_size(size)` rewrites the size field of an item's header with the grown size. -/
theorem writeBytes_itemHeader_add (size n : ℕ) (type : ItemType) (rest : List UInt8) :
    writeBytes (itemHeader size type ++ rest) 0
        (encodeLE 4 (byteSize (itemHeader size type ++ rest) 0 + n)) =
      itemHeader (size + n) type ++ rest := by
  rw [byteSize_itemHeader_append, two_pow_32, ← encodeLE_mod, Nat.mod_add_mod, encodeLE_mod,
    writeBytes_zero, length_encodeLE, itemHeader_append, List.drop_left' (length_encodeLE 4 size),
    itemHeader_append]

/-- The fixed parts of the items, as one platform lays them out. -/
structure Layout where
  /-- `sizeof(T)` of the item class of each kind. -/
  sizeOf : ItemType → ℕ
  /-- Every fixed part starts with the item header. -/
  itemHeaderSize_le : ∀ t, itemHeaderSize ≤ sizeOf t
  /-- Every fixed part is a whole number of alignment units. -/
  sizeOf_aligned : ∀ t, sizeOf t % alignBytes = 0
  /-- Fixed parts are small. -/
  sizeOf_lt : ∀ t, sizeOf t < 2 ^ 16
  /-- Where `Changeset::m_user_size` lies within a changeset's fixed part. -/
  changesetUserSizeOffset : ℕ
  /-- The changeset's `user_size` field follows the item header. -/
  itemHeaderSize_le_changesetUserSizeOffset : itemHeaderSize ≤ changesetUserSizeOffset
  /-- The changeset's `user_size` field lies within its fixed part. -/
  changesetUserSizeOffset_add_le : changesetUserSizeOffset + 2 ≤ sizeOf .changeset

/-- `new (&item()) T{}`: the header of a fresh item of kind `t`, whose size is `sizeof(T)`, and its
fixed fields zero-initialised. -/
def Layout.image (layout : Layout) (t : ItemType) : List UInt8 :=
  itemHeader (layout.sizeOf t) t ++ List.replicate (layout.sizeOf t - itemHeaderSize) 0

@[simp]
theorem Layout.length_image (layout : Layout) (t : ItemType) : (layout.image t).length = layout.sizeOf t := by
  have := layout.itemHeaderSize_le t
  simp only [image, List.length_append, length_itemHeader, List.length_replicate]
  omega

/-- The fixed parts of libosmium's items on x86-64: eight bytes for the collections, which are
bare item headers, forty for a node, thirty-two for the other objects and fifty-six for a
changeset, whose `user_size` field is at offset forty-eight. -/
def Layout.amd64 : Layout where
  sizeOf
    | .node => 40
    | .way | .relation | .area => 32
    | .changeset => 56
    | _ => 8
  itemHeaderSize_le t := by cases t <;> decide
  sizeOf_aligned t := by cases t <;> decide
  sizeOf_lt t := by cases t <;> decide
  changesetUserSizeOffset := 48
  itemHeaderSize_le_changesetUserSizeOffset := by decide
  changesetUserSizeOffset_add_le := by decide

end Osmium.Memory
