import Osmium.Builder.TagList
import Mathlib.Algebra.Group.Int

/-!
# Node references and relation members

`NodeRefListBuilder` appends a list of fixed-size node references (a way's nodes, or an area's
outer or inner ring); `RelationMemberListBuilder` appends relation members, each a fixed-size
`RelationMember` record followed by its role as a zero-terminated string padded to `align_bytes`,
and, for a full member, a copy of the member object.

`add_member` keeps a raw pointer to the member record it reserved and sets the record's
`role_size` through it in `add_role`. Nothing is reserved between the two, so the store always
reaches the record (`addMember_ok`).

Modelled from the spec: the record layouts of `osmium/osm/node_ref.hpp` and
`osmium/osm/relation.hpp` are not part of the sources modelled here. A `NodeRef` is the node id
(8 bytes) and the location's two 32-bit coordinates; a `RelationMember` is the member id (8 bytes),
its `item_type` (2), its flags (2, the lowest bit marking a full member), its `role_size` (2, the
`string_size_type`) and two bytes of padding. `new (member) RelationMember{ref, type, full}` writes
the fields and not the padding, which keeps what the reservation held (`relationMemberRecord`).

* `addMember_roleSize`: for a role that passes the length check, `role_size` is its length plus one.
-/

namespace Osmium

open Memory

/-- The two's complement bytes of a signed field of `width` bytes. -/
def encodeSigned (width : ℕ) (value : ℤ) : List UInt8 :=
  encodeLE width (value % 2 ^ (8 * width)).toNat

/-- `osmium::NodeRef`: a node id and its location. -/
structure NodeRef where
  /-- `object_id_type`, 64 bits. -/
  ref : ℤ
  /-- The location's `int32_t` x coordinate. -/
  x : ℤ
  /-- The location's `int32_t` y coordinate. -/
  y : ℤ

/-- `sizeof(osmium::NodeRef)`. -/
def nodeRefSize : ℕ := 16

/-- The bytes of a node reference. -/
def NodeRef.bytes (r : NodeRef) : List UInt8 :=
  encodeSigned 8 r.ref ++ encodeSigned 4 r.x ++ encodeSigned 4 r.y

@[simp]
theorem NodeRef.length_bytes (r : NodeRef) : r.bytes.length = nodeRefSize := by
  simp [NodeRef.bytes, encodeSigned, nodeRefSize]

/-- `sizeof(osmium::RelationMember)`. -/
def relationMemberSize : ℕ := 16

/-- Where `RelationMember::m_role_size` lies in the record. -/
def roleSizeOffset : ℕ := 12

/-- `RelationMember{ref, type, full}`: the fields its constructor writes, the id, the type, the flags
marking a full member, and a `role_size` of zero. The record's last two bytes, padding after
`role_size`, are not written. -/
def relationMemberImage (ref : ℤ) (type : ItemType) (full : Bool) : List UInt8 :=
  encodeSigned 8 ref ++ encodeLE 2 type.code ++ encodeLE 2 (if full then 1 else 0) ++ encodeLE 2 0

@[simp]
theorem length_relationMemberImage (ref : ℤ) (type : ItemType) (full : Bool) :
    (relationMemberImage ref type full).length = 14 := by
  simp [relationMemberImage, encodeSigned]

/-- The record `add_member` reserves at `offset` once its constructor has run: the fields it writes,
then the two bytes of padding, which hold what fresh storage held there. -/
def relationMemberRecord (a : Allocator) (offset : ℕ) (ref : ℤ) (type : ItemType) (full : Bool) : List UInt8 :=
  relationMemberImage ref type full ++ Buffer.fresh a (offset + 14) 2

@[simp]
theorem length_relationMemberRecord (a : Allocator) (offset : ℕ) (ref : ℤ) (type : ItemType) (full : Bool) :
    (relationMemberRecord a offset ref type full).length = relationMemberSize := by
  simp [relationMemberRecord, relationMemberSize]

/-- `new (member) RelationMember{ref, type, full}` on the reservation `reserve_space_for` made: the
record follows the written part. -/
theorem reserveSpace_storeAt_relationMemberImage (a : Allocator) (buf : Buffer) (ref : ℤ) (type : ItemType)
    (full : Bool) :
    ((buf.reserveSpace a relationMemberSize).storeAt ((buf.reserveSpace a relationMemberSize).ptr buf.data.length)
      (relationMemberImage ref type full)).data = buf.data ++ relationMemberRecord a buf.data.length ref type full := by
  rw [Buffer.storeAt_of_eq rfl, Buffer.ptr,
    Buffer.reserveSpace_write_prefix_data a buf (by simp [relationMemberSize]), List.append_assoc]
  simp [relationMemberRecord, relationMemberSize]

/-- `NodeRefListBuilder<T>` for `T` a `WayNodeList`, `OuterRing` or `InnerRing`. -/
structure NodeRefListBuilder extends Builder where
  /-- The kind of the list. -/
  type : ItemType

/-- `osmium::builder::RelationMemberListBuilder`. -/
structure RelationMemberListBuilder extends Builder

section Builders

variable (layout : Layout) (a : Allocator)

namespace NodeRefListBuilder

/-- `NodeRefListBuilder(buffer, parent)`: `Builder(buffer, parent, sizeof(T))`, then
`new (&item()) T{}`. -/
def make (type : ItemType) (buf : Buffer) (parent : Option Builder) : NodeRefListBuilder × Buffer :=
  let (b, buf₁) := Builder.make a buf parent (layout.sizeOf type)
  (⟨b, type⟩, buf₁.write b.itemOffset (layout.image type))

/-- `~NodeRefListBuilder()`: `add_padding()`. -/
def destroy (nb : NodeRefListBuilder) (buf : Buffer) : Buffer :=
  nb.addPadding a buf false

/-- `add_node_ref(node_ref)`: the reference in a reservation of `sizeof(NodeRef)`, then
`add_size(sizeof(osmium::NodeRef))`. -/
def addNodeRef (nb : NodeRefListBuilder) (buf : Buffer) (r : NodeRef) : Buffer :=
  nb.addSize ((buf.reserveSpace a nodeRefSize).write buf.data.length r.bytes) nodeRefSize

end NodeRefListBuilder

namespace RelationMemberListBuilder

/-- `RelationMemberListBuilder(buffer, parent)`: `Builder(buffer, parent,
sizeof(RelationMemberList))`, then `new (&item()) RelationMemberList{}`. -/
def make (buf : Buffer) (parent : Option Builder) : RelationMemberListBuilder × Buffer :=
  let (b, buf₁) := Builder.make a buf parent (layout.sizeOf .relationMemberList)
  (⟨b⟩, buf₁.write b.itemOffset (layout.image .relationMemberList))

/-- `~RelationMemberListBuilder()`: `add_padding()`. -/
def destroy (rb : RelationMemberListBuilder) (buf : Buffer) : Buffer :=
  rb.addPadding a buf false

/-- `add_role(member, role, length)`: the length check, then
`member.set_role_size(string_size_type(length) + 1)` through the pointer to the member record,
`add_size(append_with_zero(role, length))` and `add_padding(true)`. -/
def addRole (rb : RelationMemberListBuilder) (buf : Buffer) (member : Ptr) (role : List UInt8) :
    Except Failure Unit × Buffer :=
  if role.length > maxOsmStringLength then (.error (.lengthError "OSM relation member role is too long"), buf)
  else
    let buf₁ := buf.storeAt (member.field roleSizeOffset) (encodeLE 2 (role.length % 2 ^ 16 + 1))
    let (size, buf₂) := appendWithZero a buf₁ role
    (.ok (), rb.addPadding a (rb.addSize buf₂ size) true)

/-- `add_member(type, ref, role, role_length, full_member)`: the member record in a reservation of
`sizeof(RelationMember)`, `add_size(sizeof(RelationMember))`, `add_role`, and then, for a full
member, `add_item(*full_member)`. The full member is given by its bytes. -/
def addMember (rb : RelationMemberListBuilder) (buf : Buffer) (type : ItemType) (ref : ℤ)
    (role : List UInt8) (fullMember : Option (List UInt8)) : Except Failure Unit × Buffer :=
  let buf₁ := buf.reserveSpace a relationMemberSize
  let member := buf₁.ptr buf.data.length
  let buf₂ := buf₁.storeAt member (relationMemberImage ref type fullMember.isSome)
  match rb.addRole a (rb.addSize buf₂ relationMemberSize) member role with
  | (.error e, buf₃) => (.error e, buf₃)
  | (.ok (), buf₃) =>
    match fullMember with
    | some item => (.ok (), rb.addItem a buf₃ item)
    | none => (.ok (), buf₃)

end RelationMemberListBuilder

end Builders

/-! ### The member records -/

section Records

variable {a : Allocator} {rb : RelationMemberListBuilder} {buf : Buffer}

/-- The record of a member once `add_role` has set its `role_size`. -/
theorem writeBytes_relationMemberRecord (offset : ℕ) (ref : ℤ) (type : ItemType) (full : Bool) (roleSize : ℕ) :
    writeBytes (relationMemberRecord a offset ref type full) roleSizeOffset (encodeLE 2 roleSize) =
      encodeSigned 8 ref ++ encodeLE 2 type.code ++ encodeLE 2 (if full then 1 else 0) ++ encodeLE 2 roleSize ++
        Buffer.fresh a (offset + 14) 2 := by
  simp [writeBytes, relationMemberRecord, relationMemberImage, roleSizeOffset, encodeSigned]

/-- `add_role` for a role that passes its check, through a pointer into the current storage: it sets
the record's `role_size` to the role's length plus one, appends the role with a zero byte, adds them
to the size and pads the item. -/
theorem addRole_eq {member : Ptr} (hcur : member.generation = buf.generation) {role : List UInt8}
    (hrole : role.length ≤ maxOsmStringLength) :
    rb.addRole a buf member role =
      (.ok (), rb.addPadding a (rb.addSize (appendWithZero a (buf.write (member.offset + roleSizeOffset)
        (encodeLE 2 (role.length + 1))) role).2 (role.length + 1)) true) := by
  have hL : role.length % 2 ^ 16 = role.length := Nat.mod_eq_of_lt (by unfold maxOsmStringLength at hrole; omega)
  simp only [RelationMemberListBuilder.addRole, gt_iff_lt, Nat.not_lt.2 hrole, if_false, hL,
    Buffer.storeAt_of_eq (show (member.field roleSizeOffset).generation = buf.generation from hcur)]
  rfl

/-- `add_member` with a role that passes its check, as the builder's primitives: the member's record
appended and added to the size, `role_size` stored through the pointer to the record, the role with a
zero byte appended and added, the padding of `add_role`, and for a full member `add_item`. No
reservation comes between the record's and the store through the pointer to it, so the store always
reaches the record. -/
theorem addMember_eq_addPadding (type : ItemType) (ref : ℤ) {role : List UInt8}
    (hrole : role.length ≤ maxOsmStringLength) (fullMember : Option (List UInt8)) :
    ∃ buf₂ : Buffer, buf₂.data = buf.data ++ relationMemberRecord a buf.data.length ref type fullMember.isSome ∧
      let buf₅ := rb.addSize (appendWithZero a ((rb.addSize buf₂ relationMemberSize).write
        (buf.data.length + roleSizeOffset) (encodeLE 2 (role.length + 1))) role).2 (role.length + 1)
      rb.addMember a buf type ref role fullMember = match fullMember with
        | some item => (.ok (), rb.addItem a (rb.addPadding a buf₅ true) item)
        | none => (.ok (), rb.addPadding a buf₅ true) := by
  let buf₁ := buf.reserveSpace a relationMemberSize
  let buf₂ := buf₁.storeAt (buf₁.ptr buf.data.length) (relationMemberImage ref type fullMember.isSome)
  have hdata₂ : buf₂.data = buf.data ++ relationMemberRecord a buf.data.length ref type fullMember.isSome :=
    reserveSpace_storeAt_relationMemberImage a buf ref type fullMember.isSome
  have hrole₃ : rb.addRole a (rb.addSize buf₂ relationMemberSize) (buf₁.ptr buf.data.length) role =
      (.ok (), rb.addPadding a (rb.addSize (appendWithZero a ((rb.addSize buf₂ relationMemberSize).write
        (buf.data.length + roleSizeOffset) (encodeLE 2 (role.length + 1))) role).2 (role.length + 1)) true) :=
    addRole_eq (by simp [buf₂, buf₁]) hrole
  exact ⟨buf₂, hdata₂, by simp only [RelationMemberListBuilder.addMember, hrole₃]⟩

/-- `add_member` with a role that passes its check, seen from an offset `k` after the headers of the
open items: what was there is followed by the member's record with `role_size` set to the role's
length plus one, the role with a zero byte, and the padding of `add_role`, fewer than `align_bytes`
zeros; a full member is then copied by `add_item`. -/
theorem addMember_eq {k : ℕ} (hb : rb.ItemsBefore k) (hk : k ≤ buf.data.length) (type : ItemType) (ref : ℤ)
    {role : List UInt8} (hrole : role.length ≤ maxOsmStringLength) (fullMember : Option (List UInt8)) :
    ∃ buf₄ : Buffer, ∃ p < alignBytes, k ≤ buf₄.data.length ∧
      buf₄.data.drop k = buf.data.drop k ++ (encodeSigned 8 ref ++ encodeLE 2 type.code ++
        encodeLE 2 (if fullMember.isSome then 1 else 0) ++ encodeLE 2 (role.length + 1) ++
          Buffer.fresh a (buf.data.length + 14) 2) ++
        (role ++ [0]) ++ List.replicate p 0 ∧
      rb.addMember a buf type ref role fullMember = match fullMember with
        | some item => (.ok (), rb.addItem a buf₄ item)
        | none => (.ok (), buf₄) := by
  obtain ⟨buf₂, hdata₂, hr⟩ := @addMember_eq_addPadding a rb buf type ref _ hrole fullMember
  let image := relationMemberRecord a buf.data.length ref type fullMember.isSome
  let buf₃ := rb.addSize buf₂ relationMemberSize
  have hlen₃ : buf₃.data.length = buf.data.length + relationMemberSize := by
    rw [length_addSize (fun o ho => by rw [hdata₂, List.length_append]; exact (hb o ho).trans (by omega)), hdata₂,
      List.length_append, length_relationMemberRecord]
  have hdrop₃ : buf₃.data.drop k = buf.data.drop k ++ image := by
    rw [drop_addSize_of_itemsBefore hb, hdata₂, List.drop_append_of_le_length hk]
  -- the store through the pointer, then the role and the padding
  let buf₃' := buf₃.write (buf.data.length + roleSizeOffset) (encodeLE 2 (role.length + 1))
  let buf₅ := rb.addSize (appendWithZero a buf₃' role).2 (role.length + 1)
  have hlen₃' : buf₃'.data.length = buf₃.data.length :=
    length_writeBytes (by rw [length_encodeLE, hlen₃]; unfold roleSizeOffset relationMemberSize; omega)
  have hdrop₃' : buf₃'.data.drop k = buf.data.drop k ++ writeBytes image roleSizeOffset (encodeLE 2 (role.length + 1)) := by
    rw [drop_write_of_le _ (by omega) (by omega), hdrop₃, writeBytes_append_right (by rw [List.length_drop]; omega),
      List.length_drop, show buf.data.length + roleSizeOffset - k - (buf.data.length - k) = roleSizeOffset by omega]
  have hlen₅ : buf₅.data.length = buf₃.data.length + (role.length + 1) := by
    rw [length_addSize (fun o ho => (hb o ho).trans (by rw [length_appendWithZero]; omega)), length_appendWithZero, hlen₃']
  have hdrop₄ : (rb.addPadding a buf₅ true).data.drop k = buf.data.drop k ++ (encodeSigned 8 ref ++
      encodeLE 2 type.code ++ encodeLE 2 (if fullMember.isSome then 1 else 0) ++ encodeLE 2 (role.length + 1) ++
      Buffer.fresh a (buf.data.length + 14) 2) ++ (role ++ [0]) ++
        List.replicate (paddedLength (rb.size buf₅) - rb.size buf₅) 0 := by
    rw [drop_addPadding a hb (by omega) true, drop_addSize_of_itemsBefore hb, drop_appendWithZero a (by omega), hdrop₃',
      writeBytes_relationMemberRecord]
  have hpad := paddedLength_lt (rb.size buf₅)
  have hle := le_paddedLength (rb.size buf₅)
  exact ⟨_, _, by omega, le_length_of_drop_eq hdrop₄ (by simp), hdrop₄, hr⟩

/-- `add_member` with a role that passes its check returns normally, and the item goes on with the
member's record, whose `role_size` is the role's length plus one, then the role and a zero byte. -/
theorem addMember_ok (hb : rb.ItemsBefore buf.data.length) (type : ItemType) (ref : ℤ) {role : List UInt8}
    (hrole : role.length ≤ maxOsmStringLength) (fullMember : Option (List UInt8)) :
    let r := rb.addMember a buf type ref role fullMember
    r.1 = .ok () ∧ ∃ tail, r.2.data.drop buf.data.length =
      encodeSigned 8 ref ++ encodeLE 2 type.code ++ encodeLE 2 (if fullMember.isSome then 1 else 0) ++
        encodeLE 2 (role.length + 1) ++ Buffer.fresh a (buf.data.length + 14) 2 ++ (role ++ [0]) ++ tail := by
  obtain ⟨buf₄, p, -, hk₄, hdrop₄, hr⟩ := addMember_eq hb le_rfl type ref hrole fullMember
  rw [List.drop_length, List.nil_append] at hdrop₄
  intro r
  rw [show r = _ from hr]
  cases fullMember with
  | none => exact ⟨rfl, _, hdrop₄⟩
  | some item =>
    obtain ⟨copy, hcopy⟩ := drop_addItem a hb hk₄ item
    exact ⟨rfl, _, by rw [hcopy, hdrop₄, List.append_assoc]⟩

/-- `add_member` sets `role_size` to the role's length plus one for every role that passes its
check: the role admits at most `max_osm_string_length` bytes, so the 16 bits of `string_size_type`
never wrap. -/
theorem addMember_roleSize (hb : rb.ItemsBefore buf.data.length) (type : ItemType) (ref : ℤ) {role : List UInt8}
    (hrole : role.length ≤ maxOsmStringLength) (fullMember : Option (List UInt8)) :
    readLE (rb.addMember a buf type ref role fullMember).2.data (buf.data.length + roleSizeOffset) 2 =
      role.length + 1 := by
  obtain ⟨-, tail, hdrop⟩ := @addMember_ok a _ _ hb type ref _ hrole fullMember
  have hxs : (encodeSigned 8 ref ++ encodeLE 2 type.code ++ encodeLE 2 (if fullMember.isSome then 1 else 0)).length =
      roleSizeOffset := by simp [encodeSigned, roleSizeOffset]
  have hread := @readLE_of_drop_eq_append _
    (encodeSigned 8 ref ++ encodeLE 2 type.code ++ encodeLE 2 (if fullMember.isSome then 1 else 0))
    (encodeLE 2 (role.length + 1)) (Buffer.fresh a (buf.data.length + 14) 2 ++ (role ++ [0]) ++ tail) _
    (by rw [hdrop]; simp only [List.append_assoc])
  rw [hxs, length_encodeLE, decodeLE_encodeLE] at hread
  rw [hread]
  exact Nat.mod_eq_of_lt (by unfold maxOsmStringLength at hrole; omega)

/-- A role longer than `max_osm_string_length` makes `add_role`, and so `add_member`, throw. -/
theorem addMember_of_long (type : ItemType) (ref : ℤ) {role : List UInt8} (hrole : maxOsmStringLength < role.length)
    (fullMember : Option (List UInt8)) : ∃ e, (rb.addMember a buf type ref role fullMember).1 = .error e := by
  simp only [RelationMemberListBuilder.addMember, RelationMemberListBuilder.addRole, gt_iff_lt, hrole, if_true]
  exact ⟨_, rfl⟩

end Records

end Osmium
