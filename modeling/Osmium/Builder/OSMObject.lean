import Osmium.Builder.ChangesetDiscussion

/-!
# Object and changeset builders

`OSMObjectBuilder<T>` (for nodes, ways, relations and areas) and `ChangesetBuilder` append an item
whose fixed part is followed by the user name. Both constructors reserve the fixed part and a slot of
`min_size_for_user` zero bytes, count the slot in the item's size and set `user_size` to one (the
empty name with its terminator). `set_user(user, length)` asserts that it comes first, reserves
`padded_length(length - available_space)` more zero bytes when the name does not fit the slot, copies
the name and sets `user_size` to `length + 1`.

The two builders differ in the layout of the slot. An object keeps `user_size` as the first two
bytes after its fixed part and the name after them; a changeset keeps `user_size` inside its fixed
part and the name right after it. Both bodies are one definition with the layout as parameters
(`makeWithUserSlot`, `setUserWith`).

`string_size_type` is 16 bits wide, so `set_user_size(length + 1)` stores zero for a name of 65535
bytes. `OSMObjectBuilder::set_user(const char*)` asserts `len < 65535` and so never passes such a
name, but `ChangesetBuilder::set_user(const char*)` asserts `len <= 65535`
(`setUserCString_userSize_eq_zero`).

* `setUser_item`: after `set_user` on a new builder, the item is its fixed part, the `user_size`
  field, the name and zeros up to a multiple of eight, and its size counts all of it.
-/

namespace Osmium

open Memory

/-- `OSMObjectBuilder<TDerived, T>`, with the kind of `T`. -/
structure OSMObjectBuilder extends Builder where
  /-- The kind of object built: node, way, relation or area. -/
  type : ItemType

/-- `osmium::builder::ChangesetBuilder`. -/
structure ChangesetBuilder extends Builder

/-- The message of the assertion in `set_user(user, length)`. -/
def setUserMessage : String := "set_user() must be called at most once and before any sub-builders"

/-- The extra zeros `set_user(user, length)` reserves: `padded_length(length - available_space)`
when the name does not fit the slot, and none otherwise. -/
def setUserExtra (availableSpace length : ℕ) : ℕ :=
  if length > availableSpace then paddedLength (length - availableSpace) else 0

/-- With a slot of `padded_length(k)` bytes of which `k` are taken, the slot and the extra
reservation for a name of `length` bytes are `padded_length(k + length)`: the two branches of
`set_user` agree. -/
theorem paddedLength_add_setUserExtra (k length : ℕ) :
    paddedLength k + setUserExtra (paddedLength k - k) length = paddedLength (k + length) := by
  unfold setUserExtra paddedLength alignBytes
  split <;> omega

section Builders

variable (layout : Layout) (a : Allocator)

/-- The constructor body both builders share: `Builder(buffer, parent, sizeof(T) +
min_size_for_user)`, `new (&item()) T{}`, `add_size(min_size_for_user)`, the slot after the fixed
part zeroed with `std::fill_n`, and `set_user_size(1)`, whose field is at `userSizeOffset`. -/
def makeWithUserSlot (type : ItemType) (minSizeForUser userSizeOffset : ℕ) (buf : Buffer)
    (parent : Option Builder) : Builder × Buffer :=
  let made := Builder.make a buf parent (layout.sizeOf type + minSizeForUser)
  let b := made.1
  let buf₁ := b.addSize (made.2.write b.itemOffset (layout.image type)) minSizeForUser
  let buf₂ := buf₁.write (b.itemOffset + layout.sizeOf type) (List.replicate minSizeForUser 0)
  (b, buf₂.write (b.itemOffset + userSizeOffset) (encodeLE 2 1))

/-- The body of `set_user(user, length)` both builders share: assert that `user_size` is one and the
size at most `sizeBound`; when `length > available_space`, reserve `padded_length(length -
available_space)` zeros and add them to the size; copy the name to `nameOffset`; and
`set_user_size(length + 1)` at `userSizeOffset`. -/
def setUserWith (nameOffset userSizeOffset sizeBound availableSpace : ℕ) (b : Builder) (buf : Buffer)
    (user : List UInt8) (length : ℕ) : Except Failure Unit × Buffer :=
  if readLE buf.data (b.itemOffset + userSizeOffset) 2 = 1 ∧ b.size buf ≤ sizeBound then
    let buf₁ :=
      if length > availableSpace then
        let spaceNeeded := paddedLength (length - availableSpace)
        b.addSize ((buf.reserveSpace a spaceNeeded).write buf.data.length (List.replicate spaceNeeded 0))
          spaceNeeded
      else buf
    let buf₂ := buf₁.write (b.itemOffset + nameOffset) (user.take length)
    (.ok (), buf₂.write (b.itemOffset + userSizeOffset) (encodeLE 2 (length + 1)))
  else (.error (.assertion setUserMessage), buf)

/-- The one-argument `set_user` overloads: `assert` on the name's length, then
`set_user(user, static_cast<string_size_type>(len))`. -/
def setUserAsserting (admitted : Bool) (message : String)
    (setUser : List UInt8 → ℕ → Except Failure Unit × Buffer) (buf : Buffer) (user : List UInt8) :
    Except Failure Unit × Buffer :=
  if admitted then setUser user (user.length % 2 ^ 16) else (.error (.assertion message), buf)

namespace OSMObjectBuilder

/-- `min_size_for_user = padded_length(sizeof(string_size_type) + 1)`. -/
def minSizeForUser : ℕ := paddedLength (2 + 1)

/-- `OSMObjectBuilder(buffer, parent)`: the slot follows the fixed part, and `user_size` is its first
two bytes. -/
def make (type : ItemType) (buf : Buffer) (parent : Option Builder) : OSMObjectBuilder × Buffer :=
  let made := makeWithUserSlot layout a type minSizeForUser (layout.sizeOf type) buf parent
  (⟨made.1, type⟩, made.2)

/-- `set_user(user, length)`: `size_of_object = sizeof(T) + sizeof(string_size_type)`, where the name
goes; the assertion bounds the size by `size_of_object + padded_length(1)`; `available_space =
min_size_for_user - sizeof(string_size_type) - 1`. -/
def setUser (ob : OSMObjectBuilder) (buf : Buffer) (user : List UInt8) (length : ℕ) :
    Except Failure Unit × Buffer :=
  let sizeOfObject := layout.sizeOf ob.type + 2
  setUserWith a sizeOfObject (layout.sizeOf ob.type) (sizeOfObject + paddedLength 1) (minSizeForUser - 2 - 1)
    ob.toBuilder buf user length

/-- `set_user(const char* user)`: `assert(len < std::numeric_limits<string_size_type>::max())`. -/
def setUserCString (ob : OSMObjectBuilder) (buf : Buffer) (user : CString) : Except Failure Unit × Buffer :=
  setUserAsserting (decide (user.bytes.length < 2 ^ 16 - 1))
    "len < std::numeric_limits<string_size_type>::max()" (ob.setUser layout a buf) buf user.bytes

/-- `set_user(const std::string& user)`: `assert(user.size() < std::numeric_limits<string_size_type>::max())`. -/
def setUserString (ob : OSMObjectBuilder) (buf : Buffer) (user : List UInt8) : Except Failure Unit × Buffer :=
  setUserAsserting (decide (user.length < 2 ^ 16 - 1))
    "user.size() < std::numeric_limits<string_size_type>::max()" (ob.setUser layout a buf) buf user

/-- `add_tags(tags)`: a `TagListBuilder` on this builder, `add_tag(p.first, p.second)` for each pair,
and the tag list builder's destructor, which also runs when an `add_tag` throws. -/
def addTags (ob : OSMObjectBuilder) (buf : Buffer) (tags : List (CString × CString)) :
    Except Failure Unit × Buffer :=
  let made := TagListBuilder.make layout a buf (some ob.toBuilder)
  let run := runAddTags a made.1 made.2 (tags.map fun p => .cStrings p.1 p.2)
  (run.1, made.1.destroy a run.2)

/-- `WayBuilder::add_node_refs(nodes)`: a `WayNodeListBuilder` on this builder, `add_node_ref` for
each reference, and its destructor. -/
def addNodeRefs (ob : OSMObjectBuilder) (buf : Buffer) (nodes : List NodeRef) : Buffer :=
  let made := NodeRefListBuilder.make layout a .wayNodeList buf (some ob.toBuilder)
  made.1.destroy a (nodes.foldl (made.1.addNodeRef a) made.2)

end OSMObjectBuilder

namespace ChangesetBuilder

/-- `min_size_for_user = padded_length(1)`. -/
def minSizeForUser : ℕ := paddedLength 1

/-- `ChangesetBuilder(buffer, parent)`: the slot follows the fixed part, and `user_size` is the
changeset's own field. -/
def make (buf : Buffer) (parent : Option Builder) : ChangesetBuilder × Buffer :=
  let made := makeWithUserSlot layout a .changeset minSizeForUser layout.changesetUserSizeOffset buf parent
  (⟨made.1⟩, made.2)

/-- `set_user(user, length)`: the name goes right after the fixed part; the assertion bounds the size
by `sizeof(Changeset) + padded_length(1)`; `available_space = min_size_for_user - 1`. -/
def setUser (cb : ChangesetBuilder) (buf : Buffer) (user : List UInt8) (length : ℕ) :
    Except Failure Unit × Buffer :=
  setUserWith a (layout.sizeOf .changeset) layout.changesetUserSizeOffset
    (layout.sizeOf .changeset + paddedLength 1) (minSizeForUser - 1) cb.toBuilder buf user length

/-- `set_user(const char* user)`: `assert(len <= std::numeric_limits<string_size_type>::max())`,
which, unlike the other overloads, admits a name of 65535 bytes. -/
def setUserCString (cb : ChangesetBuilder) (buf : Buffer) (user : CString) : Except Failure Unit × Buffer :=
  setUserAsserting (decide (user.bytes.length ≤ 2 ^ 16 - 1))
    "len <= std::numeric_limits<string_size_type>::max()" (cb.setUser layout a buf) buf user.bytes

/-- `set_user(const std::string& user)`: `assert(user.size() < std::numeric_limits<string_size_type>::max())`. -/
def setUserString (cb : ChangesetBuilder) (buf : Buffer) (user : List UInt8) : Except Failure Unit × Buffer :=
  setUserAsserting (decide (user.length < 2 ^ 16 - 1))
    "user.size() < std::numeric_limits<string_size_type>::max()" (cb.setUser layout a buf) buf user

end ChangesetBuilder

end Builders

/-! ### The user slot -/

section Slot

variable {layout : Layout} {a : Allocator}

/-- A new object or changeset: the header with the fixed part and the slot counted in the size, then
zeros, with the `user_size` field set to one. -/
theorem drop_makeWithUserSlot {buf : Buffer} {parent : Option Builder}
    (hparent : ∀ p ∈ parent, p.ItemsBefore buf.data.length) {type : ItemType} {minSizeForUser userSizeOffset : ℕ}
    (hU : itemHeaderSize ≤ userSizeOffset) (hU' : userSizeOffset + 2 ≤ layout.sizeOf type + minSizeForUser) :
    (makeWithUserSlot layout a type minSizeForUser userSizeOffset buf parent).2.data.drop buf.data.length =
      itemHeader (layout.sizeOf type + minSizeForUser) type ++
        writeBytes (List.replicate (layout.sizeOf type - itemHeaderSize + minSizeForUser) 0)
          (userSizeOffset - itemHeaderSize) (encodeLE 2 1) := by
  have hF := layout.itemHeaderSize_le type
  have hlen₀ := length_make a hparent (layout.sizeOf type + minSizeForUser)
  have hb := parentsBefore_make a hparent (layout.sizeOf type + minSizeForUser)
  set made := Builder.make a buf parent (layout.sizeOf type + minSizeForUser) with hmade
  have hoff : made.1.itemOffset = buf.data.length := by rw [hmade]; rfl
  set fresh := (Buffer.fresh a buf.data.length (layout.sizeOf type + minSizeForUser)).drop (layout.sizeOf type)
  have hfresh : fresh.length = minSizeForUser := by simp [fresh]
  -- `new (&item()) T{}` over the reservation
  have h₁ : (made.2.write buf.data.length (layout.image type)).data.drop buf.data.length =
      itemHeader (layout.sizeOf type) type ++
        (List.replicate (layout.sizeOf type - itemHeaderSize) 0 ++ fresh) := by
    rw [drop_write_of_le _ le_rfl (by omega), Nat.sub_self, hmade, drop_make a hparent, writeBytes_zero,
      Layout.length_image, Layout.image, List.append_assoc]
  -- `add_size(min_size_for_user)`
  have h₂ := drop_addSize hb (hoff ▸ h₁) minSizeForUser
  rw [hoff] at h₂
  have hlen₂ := add_itemHeaderSize_le_of_drop_eq h₂
  -- the slot zeroed
  have h₃ : ((made.1.addSize (made.2.write buf.data.length (layout.image type)) minSizeForUser).write
      (buf.data.length + layout.sizeOf type) (List.replicate minSizeForUser 0)).data.drop buf.data.length =
      itemHeader (layout.sizeOf type + minSizeForUser) type ++
        List.replicate (layout.sizeOf type - itemHeaderSize + minSizeForUser) 0 := by
    rw [drop_write_add (by unfold itemHeaderSize at hlen₂; omega), h₂,
      writeBytes_append_right (by simp only [length_itemHeader]; exact hF), length_itemHeader,
      writeBytes_append_right (by simp only [List.length_replicate]; omega), List.length_replicate,
      show layout.sizeOf type - itemHeaderSize - (layout.sizeOf type - itemHeaderSize) = 0 by omega,
      writeBytes_zero, List.length_replicate, List.drop_eq_nil_of_le hfresh.le, List.append_nil, List.replicate_add]
  have hlen₃ := add_itemHeaderSize_le_of_drop_eq h₃
  dsimp only [makeWithUserSlot]
  rw [← hmade, hoff, drop_write_add (by unfold itemHeaderSize at hlen₃; omega), h₃,
    writeBytes_append_right (by simp only [length_itemHeader]; exact hU), length_itemHeader]

/-- The bytes of an item after its header. -/
theorem drop_itemHeader_append {k : ℕ} (hk : itemHeaderSize ≤ k) (size : ℕ) (type : ItemType) (rest : List UInt8) :
    (itemHeader size type ++ rest).drop k = rest.drop (k - itemHeaderSize) := by
  rw [List.drop_append_eq_append_drop, List.drop_eq_nil_of_le (by simpa using hk), List.nil_append,
    length_itemHeader]

/-- `set_user(user, length)` on an object or changeset that has no name yet and whose size the
assertion admits: the item grows by the extra reservation, whose bytes are zeros, the name is copied
to `nameOffset` and `user_size` becomes the name's length plus one. -/
theorem setUserWith_ok {b : Builder} (hb : b.ParentsBefore) {buf : Buffer} {S Z : ℕ} {type : ItemType}
    {nameOffset userSizeOffset sizeBound availableSpace : ℕ} {user : List UInt8}
    (h : buf.data.drop b.itemOffset =
      itemHeader S type ++ writeBytes (List.replicate Z 0) (userSizeOffset - itemHeaderSize) (encodeLE 2 1))
    (hU : itemHeaderSize ≤ userSizeOffset) (hZ : userSizeOffset + 2 ≤ itemHeaderSize + Z)
    (hUN : userSizeOffset + 2 ≤ nameOffset) (hbound : S % 2 ^ 32 ≤ sizeBound)
    (hfit : nameOffset + user.length ≤ itemHeaderSize + Z + setUserExtra availableSpace user.length) :
    let r := setUserWith a nameOffset userSizeOffset sizeBound availableSpace b buf user user.length
    r.1 = .ok () ∧
      r.2.data.drop b.itemOffset =
        itemHeader (S + setUserExtra availableSpace user.length) type ++
          writeBytes (writeBytes (List.replicate (Z + setUserExtra availableSpace user.length) 0)
            (userSizeOffset - itemHeaderSize) (encodeLE 2 (user.length + 1))) (nameOffset - itemHeaderSize) user := by
  intro r
  have hin := add_itemHeaderSize_le_of_drop_eq h
  have h8 : itemHeaderSize = 8 := rfl
  -- the assertion holds: `user_size` is one and the size is the slot's
  have hfield : readLE buf.data (b.itemOffset + userSizeOffset) 2 = 1 := by
    have hread : readBytes (writeBytes (List.replicate Z 0) (userSizeOffset - itemHeaderSize) (encodeLE 2 1))
        (userSizeOffset - itemHeaderSize) 2 = encodeLE 2 1 :=
      readBytes_writeBytes (by simp only [length_encodeLE, List.length_replicate]; omega)
    rw [readLE_add_of_drop_eq h, drop_itemHeader_append hU, ← readBytes, hread, decodeLE_encodeLE,
      Nat.one_mod_eq_one.2 (by decide)]
  have hsize : b.size buf = S % 2 ^ 32 := byteSize_of_drop_eq h
  -- the extra reservation, when the name does not fit the slot
  let buf₁ :=
    if user.length > availableSpace then
      b.addSize ((buf.reserveSpace a (paddedLength (user.length - availableSpace))).write buf.data.length
        (List.replicate (paddedLength (user.length - availableSpace)) 0)) (paddedLength (user.length - availableSpace))
    else buf
  have h₁ : buf₁.data.drop b.itemOffset =
      itemHeader (S + setUserExtra availableSpace user.length) type ++
        writeBytes (List.replicate (Z + setUserExtra availableSpace user.length) 0) (userSizeOffset - itemHeaderSize)
          (encodeLE 2 1) := by
    by_cases hA : user.length > availableSpace
    · have hzeros := Buffer.reserveSpace_write_data a buf
        (List.replicate (paddedLength (user.length - availableSpace)) 0)
      rw [List.length_replicate] at hzeros
      have happ := (congrArg (List.drop b.itemOffset) hzeros).trans
        (by rw [List.drop_append_of_le_length (by omega), h, List.append_assoc])
      simp only [buf₁, if_pos hA, setUserExtra]
      rw [drop_addSize hb happ, ← writeBytes_append_left (by simp only [length_encodeLE, List.length_replicate]; omega),
        ← List.replicate_add]
    · simp only [buf₁, if_neg hA, setUserExtra, Nat.add_zero, h]
  have hin₁ := add_itemHeaderSize_le_of_drop_eq h₁
  -- the name, then `user_size`
  have h₂ : (buf₁.write (b.itemOffset + nameOffset) user).data.drop b.itemOffset =
      itemHeader (S + setUserExtra availableSpace user.length) type ++
        writeBytes (writeBytes (List.replicate (Z + setUserExtra availableSpace user.length) 0)
          (userSizeOffset - itemHeaderSize) (encodeLE 2 1)) (nameOffset - itemHeaderSize) user := by
    rw [drop_write_add (by omega), h₁, writeBytes_append_right (by simp only [length_itemHeader]; omega),
      length_itemHeader]
  have hin₂ := add_itemHeaderSize_le_of_drop_eq h₂
  have hr : r = (.ok (), (buf₁.write (b.itemOffset + nameOffset) user).write (b.itemOffset + userSizeOffset)
      (encodeLE 2 (user.length + 1))) := by
    simp only [r, setUserWith, hfield, hsize, hbound, and_self, if_true, List.take_length, buf₁]
  rw [hr]
  refine ⟨rfl, ?_⟩
  have hlenW : (writeBytes (List.replicate (Z + setUserExtra availableSpace user.length) 0)
      (userSizeOffset - itemHeaderSize) (encodeLE 2 1)).length = Z + setUserExtra availableSpace user.length :=
    by rw [length_writeBytes (by simp only [length_encodeLE, List.length_replicate]; omega), List.length_replicate]
  rw [drop_write_add (by omega), h₂, writeBytes_append_right (by simp only [length_itemHeader]; omega),
    length_itemHeader, ← writeBytes_comm (by simp only [length_encodeLE]; omega) (by rw [hlenW]; omega),
    writeBytes_writeBytes_self (by simp only [length_encodeLE, List.length_replicate]; omega)
      (by simp only [length_encodeLE])]

/-- `set_user(user, length)` with `length` at most the name's bytes writes the first `length` of them:
it is `set_user` with exactly those bytes. -/
theorem setUserWith_take {nameOffset userSizeOffset sizeBound availableSpace : ℕ} {b : Builder} {buf : Buffer}
    {user : List UInt8} {length : ℕ} (h : length ≤ user.length) :
    setUserWith a nameOffset userSizeOffset sizeBound availableSpace b buf user length =
      setUserWith a nameOffset userSizeOffset sizeBound availableSpace b buf (user.take length)
        (user.take length).length := by
  rw [List.length_take_of_le h]
  simp only [setUserWith, List.take_take, min_self]

/-- `OSMObjectBuilder::set_user(user, length)` with the whole name on an object that is its fixed part
and the slot with `user_size` one: the assertion passes, and the item is its fixed part, `user_size`,
the name and zeros up to `padded_length(sizeof(string_size_type) + length + 1)` after the fixed part,
all counted in its size. -/
theorem OSMObjectBuilder.drop_setUser_of_slot {ob : OSMObjectBuilder} (hpb : ob.ParentsBefore) {buf : Buffer}
    (h : buf.data.drop ob.itemOffset = itemHeader (layout.sizeOf ob.type + minSizeForUser) ob.type ++
      writeBytes (List.replicate (layout.sizeOf ob.type - itemHeaderSize + minSizeForUser) 0)
        (layout.sizeOf ob.type - itemHeaderSize) (encodeLE 2 1)) (user : List UInt8) :
    let set := ob.setUser layout a buf user user.length
    set.1 = .ok () ∧
      set.2.data.drop ob.itemOffset =
        itemHeader (layout.sizeOf ob.type + paddedLength (2 + user.length + 1)) ob.type ++
          List.replicate (layout.sizeOf ob.type - itemHeaderSize) 0 ++ encodeLE 2 (user.length + 1) ++ user ++
          List.replicate (paddedLength (2 + user.length + 1) - 2 - user.length) 0 := by
  intro set
  have hF := layout.itemHeaderSize_le ob.type
  have h8 : itemHeaderSize = 8 := rfl
  have hm : minSizeForUser = 8 := rfl
  -- the slot and the extra reservation make up the padded name with its length field
  have hpad : minSizeForUser + setUserExtra (minSizeForUser - 2 - 1) user.length =
      paddedLength (2 + user.length + 1) := by
    rw [show 2 + user.length + 1 = 3 + user.length by omega]
    exact paddedLength_add_setUserExtra 3 user.length
  have hle := le_paddedLength (2 + user.length + 1)
  obtain ⟨hok, hdrop⟩ := @setUserWith_ok a ob.toBuilder hpb buf _ _ ob.type
    (layout.sizeOf ob.type + 2) (layout.sizeOf ob.type) (layout.sizeOf ob.type + 2 + paddedLength 1)
    (minSizeForUser - 2 - 1) user h hF (by omega) le_rfl
    ((Nat.mod_le _ _).trans (by rw [show paddedLength 1 = 8 from rfl]; omega)) (by omega)
  refine ⟨hok, hdrop.trans ?_⟩
  set E := setUserExtra (minSizeForUser - 2 - 1) user.length
  set P := paddedLength (2 + user.length + 1)
  rw [writeBytes_writeBytes_replicate (by simp only [length_encodeLE]; omega) (by omega), length_encodeLE,
    show layout.sizeOf ob.type + 2 - itemHeaderSize - (layout.sizeOf ob.type - itemHeaderSize + 2) = 0 by omega,
    List.replicate_zero, List.append_nil,
    show layout.sizeOf ob.type + minSizeForUser + E = layout.sizeOf ob.type + P by omega,
    show layout.sizeOf ob.type - itemHeaderSize + minSizeForUser + E -
      (layout.sizeOf ob.type + 2 - itemHeaderSize + user.length) = P - 2 - user.length by omega]
  simp only [List.append_assoc]

/-- `OSMObjectBuilder::set_user(user, length)` with the whole name on a new object builder: the
assertion passes, and the item is its fixed part, `user_size`, the name and zeros up to
`padded_length(sizeof(string_size_type) + length + 1)` after the fixed part, all counted in its
size. -/
theorem OSMObjectBuilder.drop_setUser {buf : Buffer} {parent : Option Builder}
    (hparent : ∀ p ∈ parent, p.ItemsBefore buf.data.length) (type : ItemType) (user : List UInt8) :
    let made := OSMObjectBuilder.make layout a type buf parent
    let set := made.1.setUser layout a made.2 user user.length
    set.1 = .ok () ∧
      set.2.data.drop buf.data.length =
        itemHeader (layout.sizeOf type + paddedLength (2 + user.length + 1)) type ++
          List.replicate (layout.sizeOf type - itemHeaderSize) 0 ++ encodeLE 2 (user.length + 1) ++ user ++
          List.replicate (paddedLength (2 + user.length + 1) - 2 - user.length) 0 :=
  OSMObjectBuilder.drop_setUser_of_slot (parentsBefore_make a hparent (layout.sizeOf type + minSizeForUser))
    (drop_makeWithUserSlot hparent (layout.itemHeaderSize_le type)
      (by have hm : minSizeForUser = 8 := rfl; omega)) user

/-- `ChangesetBuilder::set_user(user, length)` with the whole name on a changeset that is its fixed
part, with `user_size` one, and the slot: the assertion passes, and the item is its fixed part with
`user_size` set, the name and zeros up to `padded_length(length + 1)` after the fixed part, all
counted in its size. -/
theorem ChangesetBuilder.drop_setUser_of_slot {cb : ChangesetBuilder} (hpb : cb.ParentsBefore) {buf : Buffer}
    (h : buf.data.drop cb.itemOffset = itemHeader (layout.sizeOf .changeset + minSizeForUser) .changeset ++
      writeBytes (List.replicate (layout.sizeOf .changeset - itemHeaderSize + minSizeForUser) 0)
        (layout.changesetUserSizeOffset - itemHeaderSize) (encodeLE 2 1)) (user : List UInt8) :
    let set := cb.setUser layout a buf user user.length
    set.1 = .ok () ∧
      set.2.data.drop cb.itemOffset =
        itemHeader (layout.sizeOf .changeset + paddedLength (user.length + 1)) .changeset ++
          List.replicate (layout.changesetUserSizeOffset - itemHeaderSize) 0 ++ encodeLE 2 (user.length + 1) ++
          List.replicate (layout.sizeOf .changeset - layout.changesetUserSizeOffset - 2) 0 ++ user ++
          List.replicate (paddedLength (user.length + 1) - user.length) 0 := by
  intro set
  have hF := layout.itemHeaderSize_le .changeset
  have hU := layout.itemHeaderSize_le_changesetUserSizeOffset
  have hUF := layout.changesetUserSizeOffset_add_le
  have h8 : itemHeaderSize = 8 := rfl
  have hm : minSizeForUser = 8 := rfl
  have hpad : minSizeForUser + setUserExtra (minSizeForUser - 1) user.length = paddedLength (user.length + 1) := by
    rw [Nat.add_comm user.length]
    exact paddedLength_add_setUserExtra 1 user.length
  have hle := le_paddedLength (user.length + 1)
  obtain ⟨hok, hdrop⟩ := @setUserWith_ok a cb.toBuilder hpb buf _ _ .changeset
    (layout.sizeOf .changeset) layout.changesetUserSizeOffset (layout.sizeOf .changeset + paddedLength 1)
    (minSizeForUser - 1) user h hU (by omega) hUF
    ((Nat.mod_le _ _).trans (by rw [show paddedLength 1 = 8 from rfl]; omega)) (by omega)
  refine ⟨hok, hdrop.trans ?_⟩
  set E := setUserExtra (minSizeForUser - 1) user.length
  set P := paddedLength (user.length + 1)
  rw [writeBytes_writeBytes_replicate (by simp only [length_encodeLE]; omega) (by omega), length_encodeLE,
    show layout.sizeOf .changeset - itemHeaderSize - (layout.changesetUserSizeOffset - itemHeaderSize + 2) =
      layout.sizeOf .changeset - layout.changesetUserSizeOffset - 2 by omega,
    show layout.sizeOf .changeset + minSizeForUser + E = layout.sizeOf .changeset + P by omega,
    show layout.sizeOf .changeset - itemHeaderSize + minSizeForUser + E -
      (layout.sizeOf .changeset - itemHeaderSize + user.length) = P - user.length by omega]
  simp only [List.append_assoc]

/-- `ChangesetBuilder::set_user(user, length)` with the whole name on a new changeset builder: the
assertion passes, and the item is its fixed part with `user_size` set, the name and zeros up to
`padded_length(length + 1)` after the fixed part, all counted in its size. -/
theorem ChangesetBuilder.drop_setUser {buf : Buffer} {parent : Option Builder}
    (hparent : ∀ p ∈ parent, p.ItemsBefore buf.data.length) (user : List UInt8) :
    let made := ChangesetBuilder.make layout a buf parent
    let set := made.1.setUser layout a made.2 user user.length
    set.1 = .ok () ∧
      set.2.data.drop buf.data.length =
        itemHeader (layout.sizeOf .changeset + paddedLength (user.length + 1)) .changeset ++
          List.replicate (layout.changesetUserSizeOffset - itemHeaderSize) 0 ++ encodeLE 2 (user.length + 1) ++
          List.replicate (layout.sizeOf .changeset - layout.changesetUserSizeOffset - 2) 0 ++ user ++
          List.replicate (paddedLength (user.length + 1) - user.length) 0 :=
  ChangesetBuilder.drop_setUser_of_slot
    (parentsBefore_make a hparent (layout.sizeOf .changeset + minSizeForUser))
    (drop_makeWithUserSlot hparent layout.itemHeaderSize_le_changesetUserSizeOffset
      (by have := layout.changesetUserSizeOffset_add_le; omega)) user

/-- The constructor body on a parent that is itself top-level: the buffer grows by the reservation,
but the parent's size grows by the reservation, which the base constructor adds, and by the slot
once more, which `add_size(min_size_for_user)` passes on to the parent. -/
theorem size_makeWithUserSlot {buf : Buffer} {p : Builder} (hp : p.parentOffsets = [])
    (hpb : p.itemOffset + 4 ≤ buf.data.length) (type : ItemType) {minSizeForUser userSizeOffset : ℕ}
    (hU : userSizeOffset + 2 ≤ layout.sizeOf type + minSizeForUser) :
    let made := makeWithUserSlot layout a type minSizeForUser userSizeOffset buf (some p)
    made.2.data.length = buf.data.length + (layout.sizeOf type + minSizeForUser) ∧
      p.size made.2 = (p.size buf + (layout.sizeOf type + minSizeForUser) + minSizeForUser) % 2 ^ 32 := by
  have hF := layout.itemHeaderSize_le type
  have h8 : itemHeaderSize = 8 := rfl
  set len := buf.data.length
  set o := p.itemOffset
  set F := layout.sizeOf type
  -- the base constructor: the reservation, added to the parent
  have hmade : Builder.make a buf (some p) (F + minSizeForUser) =
      (⟨len, [o]⟩, addSizeAt (buf.reserveSpace a (F + minSizeForUser)) o (F + minSizeForUser)) := by
    simp only [Builder.make, Option.map_some', Option.getD_some, Builder.chain, hp]; rfl
  have hR : (buf.reserveSpace a (F + minSizeForUser)).data.length = len + (F + minSizeForUser) := by
    simp only [Buffer.reserveSpace_data, List.length_append, Buffer.length_fresh, len]
  set R := buf.reserveSpace a (F + minSizeForUser)
  have hA := length_addSizeAt (show o + 4 ≤ R.data.length by omega) (F + minSizeForUser)
  set A := addSizeAt R o (F + minSizeForUser)
  -- `new (&item()) T{}` after the parent's field
  set X := A.write len (layout.image type)
  have hX : X.data.length = len + (F + minSizeForUser) :=
    (length_writeBytes (by rw [Layout.length_image]; omega)).trans (hA.trans hR)
  -- `add_size(min_size_for_user)`, on the new item and on the parent
  have hY := length_addSizeAt (show len + 4 ≤ X.data.length by unfold itemHeaderSize at hF; omega) minSizeForUser
  set Y := addSizeAt X len minSizeForUser
  have hZ := length_addSizeAt (show o + 4 ≤ Y.data.length by omega) minSizeForUser
  set Z := addSizeAt Y o minSizeForUser
  have hsize : byteSize Z.data o = (p.size buf + (F + minSizeForUser) + minSizeForUser) % 2 ^ 32 := by
    rw [byteSize_addSizeAt (by omega), byteSize_addSizeAt_of_le hpb (by omega), byteSize_write_of_le hpb (by omega),
      byteSize_addSizeAt (by omega), byteSize_reserveSpace a hpb, Nat.mod_add_mod]
    rfl
  -- the slot zeroed and `set_user_size(1)`, after the parent's field
  have hW := @length_writeBytes Z.data (len + F) (List.replicate minSizeForUser 0)
    (by rw [List.length_replicate]; omega)
  have hV := @length_writeBytes (Z.write (len + F) (List.replicate minSizeForUser 0)).data (len + userSizeOffset)
    (encodeLE 2 1) (by rw [length_encodeLE, Buffer.write_data, hW]; omega)
  have hfinal : (makeWithUserSlot layout a type minSizeForUser userSizeOffset buf (some p)).2 =
      (Z.write (len + F) (List.replicate minSizeForUser 0)).write (len + userSizeOffset) (encodeLE 2 1) := by
    simp only [makeWithUserSlot, hmade]; rfl
  intro made
  rw [show made.2 = _ from hfinal]
  refine ⟨hV.trans (hW.trans (hZ.trans (hY.trans hX))), ?_⟩
  rw [Builder.size, byteSize_write_of_le (by omega) (by rw [Buffer.write_data, hW]; omega),
    byteSize_write_of_le (by omega) (by omega), hsize]

/-- After `set_user(user, length)` with the whole name on a new object builder, `user_size` holds
`length + 1` in the 16 bits of `string_size_type`. -/
theorem OSMObjectBuilder.userSize_setUser {buf : Buffer} {parent : Option Builder}
    (hparent : ∀ p ∈ parent, p.ItemsBefore buf.data.length) (type : ItemType) (user : List UInt8) :
    let made := OSMObjectBuilder.make layout a type buf parent
    let set := made.1.setUser layout a made.2 user user.length
    readLE set.2.data (buf.data.length + layout.sizeOf type) 2 = (user.length + 1) % 2 ^ 16 := by
  have h := readLE_of_drop_eq_append
    ((@OSMObjectBuilder.drop_setUser layout a _ _ hparent type user).2.trans (List.append_assoc _ _ _))
  rwa [List.length_append, length_itemHeader, List.length_replicate,
    Nat.add_sub_cancel' (layout.itemHeaderSize_le type), length_encodeLE, decodeLE_encodeLE, ← two_pow_16] at h

/-- After `set_user(user, length)` with the whole name on a new changeset builder, `user_size` holds
`length + 1` in the 16 bits of `string_size_type`. -/
theorem ChangesetBuilder.userSize_setUser {buf : Buffer} {parent : Option Builder}
    (hparent : ∀ p ∈ parent, p.ItemsBefore buf.data.length) (user : List UInt8) :
    let made := ChangesetBuilder.make layout a buf parent
    let set := made.1.setUser layout a made.2 user user.length
    readLE set.2.data (buf.data.length + layout.changesetUserSizeOffset) 2 = (user.length + 1) % 2 ^ 16 := by
  have h := readLE_of_drop_eq_append
    (((@ChangesetBuilder.drop_setUser layout a _ _ hparent user).2.trans (List.append_assoc _ _ _)).trans (List.append_assoc _ _ _))
  rwa [List.length_append, length_itemHeader, List.length_replicate,
    Nat.add_sub_cancel' layout.itemHeaderSize_le_changesetUserSizeOffset, length_encodeLE, decodeLE_encodeLE,
    ← two_pow_16] at h

end Slot

/-! ### The user name, and an item built on a parent -/

section UsersAndNesting

variable (layout : Layout) (a : Allocator)

/-- `set_user(user, length)` with the whole name, once, on a new object builder of any kind and on a
new changeset builder, with or without a parent: the call passes its assertion; the item's size
becomes `sizeof(T) + padded_length(sizeof(string_size_type) + L + 1)` for an object and
`sizeof(Changeset) + padded_length(L + 1)` for a changeset, whether the name fits the slot or needed
the extra reservation; and the item is its fixed part, `user_size`, the name at
`sizeof(T) + sizeof(string_size_type)` (at `sizeof(Changeset)` for a changeset) and then only zeros up
to its end. -/
theorem setUser_item (buf : Buffer) (parent : Option Builder)
    (hparent : ∀ p ∈ parent, p.ItemsBefore buf.data.length) (type : ItemType) (user : List UInt8)
    (huser : user.length < 2 ^ 16) :
    (let made := OSMObjectBuilder.make layout a type buf parent
     let set := made.1.setUser layout a made.2 user user.length
     set.1 = .ok () ∧
      byteSize set.2.data buf.data.length = layout.sizeOf type + paddedLength (2 + user.length + 1) ∧
      set.2.data.drop buf.data.length =
        itemHeader (layout.sizeOf type + paddedLength (2 + user.length + 1)) type ++
          List.replicate (layout.sizeOf type - itemHeaderSize) 0 ++ encodeLE 2 (user.length + 1) ++ user ++
          List.replicate (paddedLength (2 + user.length + 1) - 2 - user.length) 0) ∧
    (let made := ChangesetBuilder.make layout a buf parent
     let set := made.1.setUser layout a made.2 user user.length
     set.1 = .ok () ∧
      byteSize set.2.data buf.data.length = layout.sizeOf .changeset + paddedLength (user.length + 1) ∧
      set.2.data.drop buf.data.length =
        itemHeader (layout.sizeOf .changeset + paddedLength (user.length + 1)) .changeset ++
          List.replicate (layout.changesetUserSizeOffset - itemHeaderSize) 0 ++ encodeLE 2 (user.length + 1) ++
          List.replicate (layout.sizeOf .changeset - layout.changesetUserSizeOffset - 2) 0 ++ user ++
          List.replicate (paddedLength (user.length + 1) - user.length) 0) := by
  obtain ⟨hok, hdrop⟩ := OSMObjectBuilder.drop_setUser hparent type user
  obtain ⟨hok', hdrop'⟩ := ChangesetBuilder.drop_setUser hparent user
  have hF := layout.sizeOf_lt type
  have hC := layout.sizeOf_lt .changeset
  have hlt := paddedLength_lt (2 + user.length + 1)
  have hlt' := paddedLength_lt (user.length + 1)
  unfold alignBytes at hlt hlt'
  -- the header first, so that the size field is read off without unfolding the item
  have hheader := hdrop
  have hheader' := hdrop'
  simp only [List.append_assoc] at hheader hheader'
  exact ⟨⟨hok, (byteSize_of_drop_eq hheader).trans (Nat.mod_eq_of_lt (by omega)), hdrop⟩,
    ⟨hok', (byteSize_of_drop_eq hheader').trans (Nat.mod_eq_of_lt (by omega)), hdrop'⟩⟩

/-- An eight-byte name, which fits neither the object's slot nor the changeset's. -/
def mapperName : List UInt8 := [0x6d, 0x61, 0x70, 0x70, 0x65, 0x72, 0x2d, 0x31]

/-- `setUser_item` for a top-level node and a top-level changeset in an empty buffer, both with a
name that needs the extra reservation. -/
theorem setUser_item_sample :
    (∀ p ∈ (none : Option Builder), p.ItemsBefore 0) ∧ mapperName.length < 2 ^ 16 ∧
      (let made := OSMObjectBuilder.make Layout.amd64 Allocator.sample .node ⟨[], 64, 0⟩ none
       let set := made.1.setUser Layout.amd64 Allocator.sample made.2 mapperName mapperName.length
       set.1 = .ok () ∧ byteSize set.2.data 0 = 56) ∧
      (let made := ChangesetBuilder.make Layout.amd64 Allocator.sample ⟨[], 64, 0⟩ none
       let set := made.1.setUser Layout.amd64 Allocator.sample made.2 mapperName mapperName.length
       set.1 = .ok () ∧ byteSize set.2.data 0 = 72) :=
  have hnone : ∀ p ∈ (none : Option Builder), p.ItemsBefore 0 := fun _ h => nomatch h
  have h := setUser_item Layout.amd64 Allocator.sample ⟨[], 64, 0⟩ none hnone .node mapperName (by decide)
  ⟨hnone, by decide, ⟨h.1.1, h.1.2.1⟩, ⟨h.2.1, h.2.2.1⟩⟩

/-- `ChangesetBuilder::set_user(const char*)` with a name of 65535 bytes on a new changeset builder:
`assert(len <= std::numeric_limits<string_size_type>::max())` passes, and `set_user_size(length + 1)`
stores `65536` in 16 bits, that is zero. -/
theorem ChangesetBuilder.setUserCString_userSize_eq_zero {buf : Buffer} {parent : Option Builder}
    (hparent : ∀ p ∈ parent, p.ItemsBefore buf.data.length) {user : CString}
    (hlen : user.bytes.length = 2 ^ 16 - 1) :
    let made := ChangesetBuilder.make layout a buf parent
    let set := made.1.setUserCString layout a made.2 user
    set.1 = .ok () ∧ readLE set.2.data (buf.data.length + layout.changesetUserSizeOffset) 2 = 0 := by
  intro made set
  have hset : set = made.1.setUser layout a made.2 user.bytes user.bytes.length := by
    simp [set, ChangesetBuilder.setUserCString, setUserAsserting, hlen]
  rw [hset]
  exact ⟨(ChangesetBuilder.drop_setUser hparent user.bytes).1,
    (ChangesetBuilder.userSize_setUser hparent user.bytes).trans
      (by rw [hlen, Nat.sub_add_cancel Nat.one_le_two_pow, Nat.mod_self])⟩

/-- An object builder or a changeset builder constructed on a top-level parent: the buffer grows by
the child's item, `sizeof(T) + min_size_for_user` bytes, but the parent's size by `sizeof(T) +
2 * min_size_for_user`. The base constructor adds the whole reservation to the parent, and the
derived constructor's `add_size(min_size_for_user)` adds the slot to it a second time. -/
theorem make_with_parent_size (buf : Buffer) (p : Builder) (hp : p.parentOffsets = [])
    (hpb : p.itemOffset + 4 ≤ buf.data.length) (type : ItemType) :
    (let made := OSMObjectBuilder.make layout a type buf (some p)
     made.2.data.length = buf.data.length + (layout.sizeOf type + OSMObjectBuilder.minSizeForUser) ∧
      p.size made.2 = (p.size buf + (layout.sizeOf type + OSMObjectBuilder.minSizeForUser) +
        OSMObjectBuilder.minSizeForUser) % 2 ^ 32) ∧
    (let made := ChangesetBuilder.make layout a buf (some p)
     made.2.data.length = buf.data.length + (layout.sizeOf .changeset + ChangesetBuilder.minSizeForUser) ∧
      p.size made.2 = (p.size buf + (layout.sizeOf .changeset + ChangesetBuilder.minSizeForUser) +
        ChangesetBuilder.minSizeForUser) % 2 ^ 32) :=
  ⟨size_makeWithUserSlot hp hpb type (Nat.add_le_add_left (by decide) _),
    size_makeWithUserSlot hp hpb .changeset (layout.changesetUserSizeOffset_add_le.trans (Nat.le_add_right _ _))⟩

/-- A way builder at the start of an empty buffer and a node builder constructed on it: the way's
item holds 88 bytes, its own 40 and the node's 48, but its size says 96. -/
theorem make_with_parent_size_way_node :
    let way := OSMObjectBuilder.make Layout.amd64 Allocator.sample .way ⟨[], 64, 0⟩ none
    let node := OSMObjectBuilder.make Layout.amd64 Allocator.sample .node way.2 (some way.1.toBuilder)
    way.1.parentOffsets = [] ∧ way.1.itemOffset + 4 ≤ way.2.data.length ∧
      node.2.data.length = 88 ∧ way.1.toBuilder.size node.2 = 96 := by
  have hlen : (OSMObjectBuilder.make Layout.amd64 Allocator.sample .way ⟨[], 64, 0⟩ none).2.data.length = 40 := by
    decide
  have hsize : (OSMObjectBuilder.make Layout.amd64 Allocator.sample .way ⟨[], 64, 0⟩ none).1.toBuilder.size
      (OSMObjectBuilder.make Layout.amd64 Allocator.sample .way ⟨[], 64, 0⟩ none).2 = 40 := by
    decide
  have h := (make_with_parent_size Layout.amd64 Allocator.sample _
    (OSMObjectBuilder.make Layout.amd64 Allocator.sample .way ⟨[], 64, 0⟩ none).1.toBuilder rfl
    (by rw [hlen]; decide) .node).1
  exact ⟨rfl, by rw [hlen]; decide, by rw [h.1, hlen]; rfl, by rw [h.2, hsize]; rfl⟩

/-- A name of 65535 bytes, the most `string_size_type` can count. -/
def maxLengthUser : CString :=
  ⟨List.replicate (2 ^ 16 - 1) 0x61, by simp only [List.mem_replicate]; decide⟩

/-- `setUserCString_userSize_eq_zero` for a top-level changeset in an empty buffer. -/
theorem setUserCString_userSize_eq_zero_sample :
    (∀ p ∈ (none : Option Builder), p.ItemsBefore 0) ∧ maxLengthUser.bytes.length = 2 ^ 16 - 1 ∧
      (let made := ChangesetBuilder.make Layout.amd64 Allocator.sample ⟨[], 64, 0⟩ none
       let set := made.1.setUserCString Layout.amd64 Allocator.sample made.2 maxLengthUser
       set.1 = .ok () ∧ readLE set.2.data Layout.amd64.changesetUserSizeOffset 2 = 0) :=
  have hnone : ∀ p ∈ (none : Option Builder), p.ItemsBefore 0 := fun _ h => nomatch h
  have hlen : maxLengthUser.bytes.length = 2 ^ 16 - 1 := List.length_replicate _ _
  ⟨hnone, hlen, ChangesetBuilder.setUserCString_userSize_eq_zero Layout.amd64 Allocator.sample hnone hlen⟩

end UsersAndNesting

end Osmium
