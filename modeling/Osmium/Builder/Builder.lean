import Osmium.Memory.Item

/-!
# The builder protocol

Modelled from the spec: `osmium/builder/builder.hpp` is not part of the sources modelled here. A
builder appends one item to a buffer. Its constructor reserves the item's fixed part at the end of
the written part and, when the builder has a parent, adds that size to the parent; `add_size`
grows the item's size field and, through the parent, the size of every item that contains it;
`add_padding` pads the item to `align_bytes`, counting the padding in the item itself or, by
default, only in the parent. A builder reaches its item through its offset in the buffer, which a
relocation of the buffer's storage does not change.

A builder is its item's offset with the offsets of its ancestors' items (`Builder.chain`); the
operations thread the buffer. A pointer and a length given to `append` are modelled as the list of
the bytes they cover, and a `const char*` as a `CString`, whose bytes hold no zero.

* `drop_addSize`: `add_size` rewrites the size in the item's header and leaves the rest of the item.
* `append_data`, `appendWithZero_eq_append`: appending writes exactly the bytes given.
* `drop_make`: a new builder's item is the fresh reservation at the end of the written part.
-/

namespace Osmium

open Memory

/-- How a builder call stops early: it throws `std::length_error` with its message, or, in a build
with assertions enabled, one of its `assert`s fails. -/
inductive Failure
  | lengthError (what : String)
  | assertion (what : String)
  deriving DecidableEq, Repr

/-- A zero-terminated string as a `const char*` passes it: the bytes before the terminator. -/
structure CString where
  /-- The bytes up to, and without, the terminating zero. -/
  bytes : List UInt8
  /-- A zero byte would end the string. -/
  zero_not_mem : (0 : UInt8) ∉ bytes

/-- `osmium::builder::Builder`: where its item starts in the buffer, and where the items of its
parent, its parent's parent and so on start. -/
structure Builder where
  /-- `m_item_offset`. -/
  itemOffset : ℕ
  /-- The item offsets along `m_parent`, nearest first. -/
  parentOffsets : List ℕ
  deriving DecidableEq, Repr

namespace Builder

/-- The items whose sizes the builder's `add_size` grows: its own and its ancestors'. -/
def chain (b : Builder) : List ℕ := b.itemOffset :: b.parentOffsets

/-- The items of the builder and its ancestors all start at least a size field before `k`. -/
def ItemsBefore (b : Builder) (k : ℕ) : Prop := ∀ offset ∈ b.chain, offset + 4 ≤ k

/-- The items of the builder's ancestors all start at least a size field before its own. -/
def ParentsBefore (b : Builder) : Prop := ∀ offset ∈ b.parentOffsets, offset + 4 ≤ b.itemOffset

instance (b : Builder) (k : ℕ) : Decidable (b.ItemsBefore k) :=
  inferInstanceAs (Decidable (∀ offset ∈ b.chain, offset + 4 ≤ k))

end Builder

/-- `Item::add_size(size)` on the item at `offset`: its `item_size_type` size grows by `size`. -/
def addSizeAt (buf : Buffer) (offset size : ℕ) : Buffer :=
  buf.write offset (encodeLE 4 (byteSize buf.data offset + size))

/-- `add_size` on each item of a chain in turn. -/
def addSizes (offsets : List ℕ) (buf : Buffer) (size : ℕ) : Buffer :=
  offsets.foldl (fun buf offset => addSizeAt buf offset size) buf

section Protocol

variable (a : Allocator)

namespace Builder

/-- `Builder::add_size(size)`: `item().add_size(size)`, then `m_parent->add_size(size)`. -/
def addSize (b : Builder) (buf : Buffer) (size : ℕ) : Buffer :=
  addSizes b.chain buf size

/-- `Builder(buffer, parent, size)`: the item starts at the end of the written part; the
constructor reserves `size` bytes for it and adds `size` to the parent. -/
def make (buf : Buffer) (parent : Option Builder) (size : ℕ) : Builder × Buffer :=
  let b : Builder := ⟨buf.data.length, (parent.map chain).getD []⟩
  (b, addSizes b.parentOffsets (buf.reserveSpace a size) size)

/-- `Builder::size()`: `item().byte_size()`. -/
def size (b : Builder) (buf : Buffer) : ℕ := byteSize buf.data b.itemOffset

/-- `add_padding(self)`: pad the written part with zeros to the next multiple of `align_bytes`,
counted in the item itself when `self` is set, and otherwise only in the parent. -/
def addPadding (b : Builder) (buf : Buffer) (self : Bool) : Buffer :=
  let padding := alignBytes - b.size buf % alignBytes
  if padding = alignBytes then buf
  else
    let buf₁ := (buf.reserveSpace a padding).write buf.data.length (List.replicate padding 0)
    if self then b.addSize buf₁ padding else addSizes b.parentOffsets buf₁ padding

/-- `add_item(item)`: copy the item with its padding, `item.padded_size()` bytes, and add them to
the size. The item is given by its bytes from its header on. -/
def addItem (b : Builder) (buf : Buffer) (item : List UInt8) : Buffer :=
  let size := paddedLength (byteSize item 0)
  b.addSize ((buf.reserveSpace a size).write buf.data.length (item.take size)) size

end Builder

/-- `append(data, length)`: copy the bytes after the written part; returns how many. -/
def append (buf : Buffer) (bytes : List UInt8) : ℕ × Buffer :=
  (bytes.length, (buf.reserveSpace a bytes.length).write buf.data.length bytes)

/-- `append_with_zero(data, length)`: copy the bytes and a zero after them; returns how many bytes
that is. -/
def appendWithZero (buf : Buffer) (bytes : List UInt8) : ℕ × Buffer :=
  (bytes.length + 1,
    ((buf.reserveSpace a (bytes.length + 1)).write buf.data.length bytes).write
      (buf.data.length + bytes.length) [0])

/-- `append(str)`: `append(str, strlen(str) + 1)`, the string with its terminator. -/
def appendCString (buf : Buffer) (str : CString) : ℕ × Buffer :=
  append a buf (str.bytes ++ [0])

end Protocol

/-! ### Spec lemmas -/

section Lemmas

variable (a : Allocator)

@[simp]
theorem addSizes_nil (buf : Buffer) (size : ℕ) : addSizes [] buf size = buf := rfl

@[simp]
theorem addSizes_cons (offset : ℕ) (offsets : List ℕ) (buf : Buffer) (size : ℕ) :
    addSizes (offset :: offsets) buf size = addSizes offsets (addSizeAt buf offset size) size := rfl

@[simp]
theorem addSizes_generation (offsets : List ℕ) (buf : Buffer) (size : ℕ) :
    (addSizes offsets buf size).generation = buf.generation := by
  induction offsets generalizing buf with
  | nil => rfl
  | cons offset offsets ih => simp [ih, addSizeAt]

@[simp]
theorem addSizes_capacity (offsets : List ℕ) (buf : Buffer) (size : ℕ) :
    (addSizes offsets buf size).capacity = buf.capacity := by
  induction offsets generalizing buf with
  | nil => rfl
  | cons offset offsets ih => simp [ih, addSizeAt]

/-- A write from `k` on is a write into the bytes from `k` on. -/
theorem drop_write_of_le {buf : Buffer} {offset k : ℕ} (bytes : List UInt8) (h : k ≤ offset)
    (hk : k ≤ buf.data.length) :
    (buf.write offset bytes).data.drop k = writeBytes (buf.data.drop k) (offset - k) bytes := by
  have hlen : (buf.data.take k).length = k := by simp only [List.length_take]; omega
  conv_lhs => rw [Buffer.write_data, ← List.take_append_drop k buf.data]
  rw [writeBytes_append_right (by rw [hlen]; exact h), List.drop_left' hlen, hlen]

/-- A write `j` bytes after `k` is a write into the bytes from `k` on. -/
theorem drop_write_add {buf : Buffer} {k : ℕ} (hk : k ≤ buf.data.length) (j : ℕ) (bytes : List UInt8) :
    (buf.write (k + j) bytes).data.drop k = writeBytes (buf.data.drop k) j bytes := by
  rw [drop_write_of_le bytes (Nat.le_add_right k j) hk, Nat.add_sub_cancel_left]

/-- `add_size` on items that start before `k` leaves the bytes from `k` on. -/
theorem drop_addSizes_of_le {offsets : List ℕ} {k : ℕ} (h : ∀ offset ∈ offsets, offset + 4 ≤ k)
    (buf : Buffer) (size : ℕ) : (addSizes offsets buf size).data.drop k = buf.data.drop k := by
  induction offsets generalizing buf with
  | nil => rfl
  | cons offset offsets ih =>
    rw [addSizes_cons, ih (fun o ho => h o (List.mem_cons_of_mem _ ho)), addSizeAt, Buffer.write_data,
      drop_writeBytes_of_le (by rw [length_encodeLE]; exact h offset (List.mem_cons_self _ _))]

/-- `add_size` on items within the written part leaves its length. -/
theorem length_addSizes {offsets : List ℕ} {buf : Buffer} (h : ∀ offset ∈ offsets, offset + 4 ≤ buf.data.length)
    (size : ℕ) : (addSizes offsets buf size).data.length = buf.data.length := by
  induction offsets generalizing buf with
  | nil => rfl
  | cons offset offsets ih =>
    have hlen : (addSizeAt buf offset size).data.length = buf.data.length :=
      length_writeBytes (by rw [length_encodeLE]; exact h offset (List.mem_cons_self _ _))
    rw [addSizes_cons, ih (fun o ho => hlen ▸ h o (List.mem_cons_of_mem _ ho)), hlen]

/-- An item whose bytes start with a header lies within the written part. -/
theorem add_itemHeaderSize_le_of_drop_eq {data : List UInt8} {offset s : ℕ} {t : ItemType}
    {rest : List UInt8} (h : data.drop offset = itemHeader s t ++ rest) :
    offset + itemHeaderSize ≤ data.length := by
  have := congrArg List.length h
  simp only [List.length_drop, List.length_append, length_itemHeader] at this
  unfold itemHeaderSize at *
  omega

/-- `add_size` rewrites the size in the item's header, and leaves the rest of the item. -/
theorem drop_addSize {b : Builder} (hb : b.ParentsBefore) {buf : Buffer} {s : ℕ} {t : ItemType}
    {rest : List UInt8} (h : buf.data.drop b.itemOffset = itemHeader s t ++ rest) (n : ℕ) :
    (b.addSize buf n).data.drop b.itemOffset = itemHeader (s + n) t ++ rest := by
  have hlen := (add_itemHeaderSize_le_of_drop_eq h).trans' (Nat.le_add_right _ _)
  rw [Builder.addSize, Builder.chain, addSizes_cons, drop_addSizes_of_le hb, addSizeAt,
    drop_write_of_le _ le_rfl hlen, Nat.sub_self, byteSize_eq_drop, h, writeBytes_itemHeader_add]

/-- `add_size` leaves the length of the written part. -/
theorem length_addSize {b : Builder} {buf : Buffer} (h : b.ItemsBefore buf.data.length) (n : ℕ) :
    (b.addSize buf n).data.length = buf.data.length :=
  length_addSizes h n

/-- A new builder's item starts at the end of the written part. -/
@[simp]
theorem make_fst (buf : Buffer) (parent : Option Builder) (size : ℕ) :
    (Builder.make a buf parent size).1 = ⟨buf.data.length, (parent.map Builder.chain).getD []⟩ := rfl

/-- A new builder's ancestors are its parent's chain, whose items lie in the written part. -/
theorem parentsBefore_make {buf : Buffer} {parent : Option Builder}
    (hparent : ∀ p ∈ parent, p.ItemsBefore buf.data.length) (size : ℕ) :
    (Builder.make a buf parent size).1.ParentsBefore := by
  cases parent with
  | none => intro o ho; cases ho
  | some p => exact hparent p rfl

/-- A new builder's item is the fresh reservation at the end of the written part. -/
theorem drop_make {buf : Buffer} {parent : Option Builder}
    (hparent : ∀ p ∈ parent, p.ItemsBefore buf.data.length) (size : ℕ) :
    (Builder.make a buf parent size).2.data.drop buf.data.length = Buffer.fresh a buf.data.length size := by
  exact (drop_addSizes_of_le (parentsBefore_make a hparent size) _ size).trans
    (by rw [Buffer.reserveSpace_data]; exact List.drop_left _ _)

theorem length_make {buf : Buffer} {parent : Option Builder}
    (hparent : ∀ p ∈ parent, p.ItemsBefore buf.data.length) (size : ℕ) :
    (Builder.make a buf parent size).2.data.length = buf.data.length + size := by
  have hb := parentsBefore_make a hparent size
  rw [Builder.make, length_addSizes (fun o ho => by
    simp only [Buffer.reserveSpace_data, List.length_append, Buffer.length_fresh]
    exact le_trans (hb o ho) (Nat.le_add_right _ _)), Buffer.reserveSpace_data, List.length_append,
    Buffer.length_fresh]

/-- A derived builder's constructor writes its fixed part over the new builder's reservation; the
item is then exactly that fixed part. -/
theorem drop_make_write {buf : Buffer} {parent : Option Builder}
    (hparent : ∀ p ∈ parent, p.ItemsBefore buf.data.length) {size : ℕ} {image : List UInt8}
    (himage : image.length = size) :
    ((Builder.make a buf parent size).2.write buf.data.length image).data.drop buf.data.length = image := by
  rw [drop_write_of_le _ le_rfl (by rw [length_make a hparent]; exact Nat.le_add_right _ _), Nat.sub_self,
    drop_make a hparent, writeBytes_zero, List.drop_eq_nil_of_le (by simp [himage]), List.append_nil]

theorem length_make_write {buf : Buffer} {parent : Option Builder}
    (hparent : ∀ p ∈ parent, p.ItemsBefore buf.data.length) {size : ℕ} {image : List UInt8}
    (himage : image.length = size) :
    ((Builder.make a buf parent size).2.write buf.data.length image).data.length = buf.data.length + size :=
  (length_writeBytes (by rw [himage, length_make a hparent])).trans (length_make a hparent size)

/-- `append` writes exactly the bytes given after the written part. -/
@[simp]
theorem append_data (buf : Buffer) (bytes : List UInt8) :
    (append a buf bytes).2.data = buf.data ++ bytes :=
  Buffer.reserveSpace_write_data a buf bytes

@[simp]
theorem append_fst (buf : Buffer) (bytes : List UInt8) : (append a buf bytes).1 = bytes.length := rfl

/-- `append_with_zero` is `append` of the bytes and a zero. -/
theorem appendWithZero_eq_append (buf : Buffer) (bytes : List UInt8) :
    appendWithZero a buf bytes = append a buf (bytes ++ [0]) := by
  have hlen : (bytes ++ [0]).length = bytes.length + 1 := by simp
  simp only [appendWithZero, append, hlen, Buffer.write]
  rw [writeBytes_writeBytes (by simp)]

theorem appendWithZero_data (buf : Buffer) (bytes : List UInt8) :
    (appendWithZero a buf bytes).2.data = buf.data ++ (bytes ++ [0]) := by
  rw [appendWithZero_eq_append, append_data]

/-- `add_size` after bytes were appended to the written part: they follow the item's content and
its size grows by `n`. -/
theorem drop_addSize_of_data_eq {b : Builder} (hb : b.ParentsBefore) {buf buf' : Buffer} {s : ℕ}
    {t : ItemType} {rest bytes : List UInt8} (h : buf.data.drop b.itemOffset = itemHeader s t ++ rest)
    (hdata : buf'.data = buf.data ++ bytes) (n : ℕ) :
    (b.addSize buf' n).data.drop b.itemOffset = itemHeader (s + n) t ++ (rest ++ bytes) := by
  have hlen := (add_itemHeaderSize_le_of_drop_eq h).trans' (Nat.le_add_right _ _)
  refine drop_addSize hb ?_ n
  rw [hdata, List.drop_append_of_le_length hlen, h, List.append_assoc]

/-- `add_size(append(bytes))` on a builder: the bytes follow the item's content and its size grows
by their number. -/
theorem drop_addSize_append {b : Builder} (hb : b.ParentsBefore) {buf : Buffer} {s : ℕ} {t : ItemType}
    {rest : List UInt8} (h : buf.data.drop b.itemOffset = itemHeader s t ++ rest) (bytes : List UInt8) :
    (b.addSize (append a buf bytes).2 (append a buf bytes).1).data.drop b.itemOffset =
      itemHeader (s + bytes.length) t ++ (rest ++ bytes) :=
  drop_addSize_of_data_eq hb h (append_data a buf bytes) _

/-- `add_padding(true)` on an item of size `s`: the zeros that bring `s` to `padded_length(s)` follow
the item's content and are counted in its size. The 32 bits of the size field are a whole number of
alignment units, so the padding is the same whether `s` has wrapped or not. -/
theorem drop_addPadding_self {b : Builder} (hb : b.ParentsBefore) {buf : Buffer} {s : ℕ} {t : ItemType}
    {rest : List UInt8} (h : buf.data.drop b.itemOffset = itemHeader s t ++ rest) :
    (b.addPadding a buf true).data.drop b.itemOffset =
      itemHeader (paddedLength s) t ++ (rest ++ List.replicate (paddedLength s - s) 0) := by
  have hsize : b.size buf = s % 2 ^ 32 := byteSize_of_drop_eq h
  unfold Builder.addPadding
  dsimp only
  rw [hsize]
  by_cases hfull : alignBytes - s % 2 ^ 32 % alignBytes = alignBytes
  · rw [if_pos hfull, show paddedLength s = s by unfold paddedLength alignBytes at *; omega, Nat.sub_self,
      List.replicate_zero, List.append_nil, h]
  · have hzeros := Buffer.reserveSpace_write_data a buf (List.replicate (alignBytes - s % 2 ^ 32 % alignBytes) 0)
    rw [List.length_replicate] at hzeros
    rw [if_neg hfull, if_pos rfl, drop_addSize_of_data_eq hb h hzeros,
      show alignBytes - s % 2 ^ 32 % alignBytes = paddedLength s - s by unfold paddedLength alignBytes at *; omega,
      Nat.add_sub_cancel' (le_paddedLength s)]

/-- `add_item` of an item whose bytes reach its padded size: the copy of those padded bytes follows
the item's content and is counted in its size. -/
theorem drop_addItem_self {b : Builder} (hb : b.ParentsBefore) {buf : Buffer} {s : ℕ} {t : ItemType}
    {rest item : List UInt8} (h : buf.data.drop b.itemOffset = itemHeader s t ++ rest)
    (hitem : paddedLength (byteSize item 0) ≤ item.length) :
    (b.addItem a buf item).data.drop b.itemOffset =
      itemHeader (s + paddedLength (byteSize item 0)) t ++ (rest ++ item.take (paddedLength (byteSize item 0))) :=
  drop_addSize_of_data_eq hb h (by
    rw [Buffer.write_data, Buffer.reserveSpace_data,
      writeBytes_length_append (by rw [Buffer.length_fresh, List.length_take, min_eq_left hitem])]) _

@[simp]
theorem appendWithZero_fst (buf : Buffer) (bytes : List UInt8) :
    (appendWithZero a buf bytes).1 = bytes.length + 1 := rfl

@[simp]
theorem appendWithZero_generation (buf : Buffer) (bytes : List UInt8) :
    (appendWithZero a buf bytes).2.generation = (buf.reserveSpace a (bytes.length + 1)).generation := rfl

@[simp]
theorem appendWithZero_capacity (buf : Buffer) (bytes : List UInt8) :
    (appendWithZero a buf bytes).2.capacity = (buf.reserveSpace a (bytes.length + 1)).capacity := rfl

theorem length_appendWithZero (buf : Buffer) (bytes : List UInt8) :
    (appendWithZero a buf bytes).2.data.length = buf.data.length + (bytes.length + 1) := by
  simp [appendWithZero_eq_append]

@[simp]
theorem Builder.addSize_generation (b : Builder) (buf : Buffer) (size : ℕ) :
    (b.addSize buf size).generation = buf.generation :=
  addSizes_generation _ _ _

@[simp]
theorem Builder.addSize_capacity (b : Builder) (buf : Buffer) (size : ℕ) :
    (b.addSize buf size).capacity = buf.capacity :=
  addSizes_capacity _ _ _

/-! ### What follows an offset

The records a builder writes after its item's header are followed through the bytes from their
offset on: appends extend them, `add_size` on items before them leaves them, and stores through
pointers into them rewrite them in place. -/

section Suffix

variable {buf : Buffer} {k : ℕ}

/-- An offset inside the written part, seen from the bytes after it. -/
theorem le_length_of_drop_eq {rest : List UInt8} (h : buf.data.drop k = rest) (hrest : rest ≠ []) :
    k ≤ buf.data.length := by
  by_contra hk
  exact hrest (h ▸ List.drop_eq_nil_of_le (by omega))

/-- `add_size` of a builder whose items start before `k` leaves the bytes from `k` on. -/
theorem drop_addSize_of_itemsBefore {b : Builder} (hb : b.ItemsBefore k) (size : ℕ) :
    (b.addSize buf size).data.drop k = buf.data.drop k :=
  drop_addSizes_of_le hb buf size

theorem drop_append (hk : k ≤ buf.data.length) (bytes : List UInt8) :
    (append a buf bytes).2.data.drop k = buf.data.drop k ++ bytes := by
  rw [append_data, List.drop_append_of_le_length hk]

theorem drop_appendWithZero (hk : k ≤ buf.data.length) (bytes : List UInt8) :
    (appendWithZero a buf bytes).2.data.drop k = buf.data.drop k ++ (bytes ++ [0]) := by
  rw [appendWithZero_eq_append, drop_append a hk]

/-- A store through a pointer into the current storage, at or after `k`, rewrites the bytes from
`k` on; a store through a stale pointer changes nothing. -/
theorem drop_storeAt (hk : k ≤ buf.data.length) {p : Ptr} (hp : k ≤ p.offset) (bytes : List UInt8) :
    (buf.storeAt p bytes).data.drop k =
      if p.generation = buf.generation then writeBytes (buf.data.drop k) (p.offset - k) bytes
      else buf.data.drop k := by
  unfold Buffer.storeAt
  split
  · exact drop_write_of_le bytes hp hk
  · rfl

/-- `add_padding` appends the zeros that bring the item's size to a multiple of `align_bytes`,
and leaves the bytes from `k` on when the builder's items start before `k`. -/
theorem drop_addPadding {b : Builder} (hb : b.ItemsBefore k) (hk : k ≤ buf.data.length) (self : Bool) :
    (b.addPadding a buf self).data.drop k =
      buf.data.drop k ++ List.replicate (paddedLength (b.size buf) - b.size buf) 0 := by
  unfold Builder.addPadding
  dsimp only
  by_cases hpad : alignBytes - b.size buf % alignBytes = alignBytes
  · rw [if_pos hpad, show paddedLength (b.size buf) - b.size buf = 0 by unfold paddedLength alignBytes at *; omega,
      List.replicate_zero, List.append_nil]
  · have happend : ((buf.reserveSpace a (alignBytes - b.size buf % alignBytes)).write buf.data.length
        (List.replicate (alignBytes - b.size buf % alignBytes) 0)).data.drop k =
        buf.data.drop k ++ List.replicate (paddedLength (b.size buf) - b.size buf) 0 := by
      have := Buffer.reserveSpace_write_data a buf (List.replicate (alignBytes - b.size buf % alignBytes) 0)
      rw [List.length_replicate] at this
      rw [this, List.drop_append_of_le_length hk, ← add_padding_eq_paddedLength hpad, Nat.add_sub_cancel_left]
    rw [if_neg hpad]
    cases self
    · rw [if_neg Bool.false_ne_true, drop_addSizes_of_le (fun o ho => hb o (List.mem_cons_of_mem _ ho)), happend]
    · rw [if_pos rfl, drop_addSize_of_itemsBefore hb, happend]

/-- `add_item` appends the copy of the item, and leaves the bytes from `k` on when the builder's
items start before `k`. -/
theorem drop_addItem {b : Builder} (hb : b.ItemsBefore k) (hk : k ≤ buf.data.length) (item : List UInt8) :
    ∃ copy, (b.addItem a buf item).data.drop k = buf.data.drop k ++ copy := by
  unfold Builder.addItem
  rw [drop_addSize_of_itemsBefore hb, Buffer.write_data, Buffer.reserveSpace_data, writeBytes_append_right le_rfl,
    List.drop_append_of_le_length hk]
  exact ⟨_, rfl⟩

end Suffix

/-! ### The size fields

The size field of an item in the written part is followed through the operations of the builders:
reservations and writes on either side of the field leave it, and `add_size` along a chain of items
grows it once when the item is in the chain. -/

section Prefix

variable {buf : Buffer} {offset : ℕ}

/-- A write after an item's size field leaves the size. -/
theorem byteSize_write_of_le {k : ℕ} (h : offset + 4 ≤ k) (hlen : offset + 4 ≤ buf.data.length)
    (bytes : List UInt8) : byteSize (buf.write k bytes).data offset = byteSize buf.data offset :=
  readLE_eq_of_take_eq (take_writeBytes_of_le h hlen)

/-- A write that ends before an item's size field leaves the size. -/
theorem byteSize_write_of_add_le {k : ℕ} {bytes : List UInt8} (h : k + bytes.length ≤ offset) :
    byteSize (buf.write k bytes).data offset = byteSize buf.data offset := by
  rw [byteSize_eq_drop, Buffer.write_data, drop_writeBytes_of_le h, ← byteSize_eq_drop]

/-- Bytes after the written part leave the size of an item in it. -/
theorem byteSize_append_of_le {data : List UInt8} (hlen : offset + 4 ≤ data.length) (bytes : List UInt8) :
    byteSize (data ++ bytes) offset = byteSize data offset :=
  readLE_eq_of_take_eq (List.take_append_of_le_length hlen)

/-- A reservation leaves the size of an item in the written part. -/
theorem byteSize_reserveSpace (hlen : offset + 4 ≤ buf.data.length) (size : ℕ) :
    byteSize (buf.reserveSpace a size).data offset = byteSize buf.data offset := by
  rw [Buffer.reserveSpace_data, byteSize_append_of_le hlen]

/-- `Item::add_size(size)` grows the item's size modulo `2 ^ 32`. -/
theorem byteSize_addSizeAt (hlen : offset + 4 ≤ buf.data.length) (size : ℕ) :
    byteSize (addSizeAt buf offset size).data offset = (byteSize buf.data offset + size) % 2 ^ 32 := by
  have hread := @readBytes_writeBytes buf.data offset (encodeLE 4 (byteSize buf.data offset + size))
    (by rw [length_encodeLE]; exact hlen)
  rw [length_encodeLE] at hread
  rw [addSizeAt, byteSize, readLE, Buffer.write_data, hread, decodeLE_encodeLE, two_pow_32]

/-- `Item::add_size` on a later item leaves the size. -/
theorem byteSize_addSizeAt_of_le {k : ℕ} (h : offset + 4 ≤ k) (hlen : offset + 4 ≤ buf.data.length) (size : ℕ) :
    byteSize (addSizeAt buf k size).data offset = byteSize buf.data offset :=
  byteSize_write_of_le h hlen _

theorem length_addSizeAt (hlen : offset + 4 ≤ buf.data.length) (size : ℕ) :
    (addSizeAt buf offset size).data.length = buf.data.length :=
  length_writeBytes (by rw [length_encodeLE]; exact hlen)

/-- `add_size` on items that all end before an item's size field leaves the size. -/
theorem byteSize_addSizes_of_add_le {offsets : List ℕ} (h : ∀ o ∈ offsets, o + 4 ≤ offset) (size : ℕ) :
    byteSize (addSizes offsets buf size).data offset = byteSize buf.data offset := by
  rw [byteSize_eq_drop, drop_addSizes_of_le h, ← byteSize_eq_drop]

/-- `add_size` along a chain of items, each starting a header's length after the next, grows the
size of each of them once. -/
theorem byteSize_addSizes {offsets : List ℕ}
    (hsep : offsets.Pairwise fun inner outer => outer + itemHeaderSize ≤ inner)
    (hlen : ∀ o ∈ offsets, o + 4 ≤ buf.data.length) (size : ℕ) :
    ∀ o ∈ offsets, byteSize (addSizes offsets buf size).data o = (byteSize buf.data o + size) % 2 ^ 32 := by
  have h8 : itemHeaderSize = 8 := rfl
  induction offsets generalizing buf with
  | nil => intro o ho; cases ho
  | cons o₁ os ih =>
    rw [List.pairwise_cons] at hsep
    have hlen₁ := length_addSizeAt (hlen o₁ (List.mem_cons_self _ _)) size
    intro o ho
    rw [addSizes_cons]
    rcases List.mem_cons.1 ho with rfl | ho
    · rw [byteSize_addSizes_of_add_le (fun o' ho' => by have := hsep.1 o' ho'; omega),
        byteSize_addSizeAt (hlen o (List.mem_cons_self _ _))]
    · rw [ih hsep.2 (fun o' ho' => hlen₁ ▸ hlen o' (List.mem_cons_of_mem _ ho')) o ho,
        byteSize_addSizeAt_of_le (by have := hsep.1 o ho; omega) (hlen o (List.mem_cons_of_mem _ ho))]

end Prefix

end Lemmas

end Osmium
