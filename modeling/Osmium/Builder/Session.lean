import Osmium.Builder.OSMObject
import Mathlib.Logic.Relation

/-!
# Builder sessions

A builder session appends one top-level item to a buffer: a builder is constructed on the buffer,
sub-builders are constructed on it and on each other, each is destroyed before its parent adds more,
and every `add_size` of the innermost builder is passed on to every open item. This module follows
the sizes of the open items through such a session.

The module introduces:

* `SizesMatch b buf` — the items of the builder `b` and of its ancestors each start a header's
  length after their parent's, and each one's stored size counts every byte from its start to the
  end of the written part, modulo `2 ^ 32`.
* `Buffer.Grows buf buf'` — `buf'` is `buf` after more builder calls: its storage was relocated as
  often or more, and its written part is as long or longer.
* `Session`, `Op`, `Session.step` — the buffer with the open builders, innermost first, and one call:
  a constructor, a member function or the innermost builder's destructor.

Every call of the tag list, node reference list, relation member list and changeset discussion
builders, `set_user`, `add_tags` and `add_node_refs` of the object and changeset builders, the
destructors, and the constructors of top-level object and changeset builders keep the sizes of the
open items equal to their bytes (`Session.Valid.step`, `Session.valid_of_reaches`), so along every
such session each open builder's `size()` is its item's length (`Session.size_eq_of_reaches`). The
constructor of an object or changeset builder on a parent is the one call that does not: it adds
its slot to the parent twice.
-/

namespace Osmium

open Memory

/-! ### The sizes of the open items -/

/-- The items of `b` and of its ancestors, as the buffer holds them while `b` is the innermost open
builder: each starts at least a header's length after its parent's, `b`'s own lies in the written
part, and each one's size counts every byte from its start to the end of the written part, in the
32 bits of `item_size_type`. -/
structure SizesMatch (b : Builder) (buf : Buffer) : Prop where
  /-- Each item of the chain starts a header's length after its parent's. -/
  nested : b.chain.Pairwise fun inner outer => outer + itemHeaderSize ≤ inner
  /-- The innermost item's header is written. -/
  inside : b.itemOffset + itemHeaderSize ≤ buf.data.length
  /-- Each open item's size is its bytes up to the end of the written part. -/
  sizes : ∀ o ∈ b.chain, byteSize buf.data o = (buf.data.length - o) % 2 ^ 32

namespace SizesMatch

variable {b : Builder} {buf : Buffer}

/-- The innermost item starts last. -/
theorem le_itemOffset (h : SizesMatch b buf) : ∀ o ∈ b.chain, o ≤ b.itemOffset := by
  intro o ho
  rcases List.mem_cons.1 ho with rfl | ho
  · exact le_rfl
  · exact (Nat.le_add_right _ _).trans ((List.pairwise_cons.1 h.nested).1 o ho)

/-- Every open item's header lies in the written part. -/
theorem itemsBefore (h : SizesMatch b buf) : b.ItemsBefore buf.data.length := fun o ho => by
  have := h.le_itemOffset o ho
  have := h.inside
  unfold itemHeaderSize at *
  omega

/-- The ancestors' items start a header's length before the innermost one. -/
theorem parentsBefore (h : SizesMatch b buf) : b.ParentsBefore := fun o ho => by
  have := (List.pairwise_cons.1 h.nested).1 o ho
  unfold itemHeaderSize at this
  omega

/-- Bytes appended and then counted by the innermost builder's `add_size` are counted by every open
item. -/
theorem addSize_of_data_eq (h : SizesMatch b buf) {buf₁ : Buffer} {bytes : List UInt8}
    (hdata : buf₁.data = buf.data ++ bytes) : SizesMatch b (b.addSize buf₁ bytes.length) := by
  have hbefore : b.ItemsBefore buf₁.data.length := fun o ho => by
    rw [hdata, List.length_append]; exact (h.itemsBefore o ho).trans (Nat.le_add_right _ _)
  have hlen : (b.addSize buf₁ bytes.length).data.length = buf.data.length + bytes.length := by
    rw [length_addSize hbefore, hdata, List.length_append]
  refine ⟨h.nested, by rw [hlen]; exact h.inside.trans (Nat.le_add_right _ _), fun o ho => ?_⟩
  have hle := h.le_itemOffset o ho
  have hin := h.inside
  unfold itemHeaderSize at hin
  rw [hlen, Builder.addSize, byteSize_addSizes h.nested hbefore _ o ho, hdata,
    byteSize_append_of_le (h.itemsBefore o ho), h.sizes o ho, Nat.mod_add_mod, Nat.sub_add_comm (by omega)]

/-- A write after the innermost item's header, within the written part, leaves every size. -/
theorem write (h : SizesMatch b buf) {k : ℕ} {bytes : List UInt8} (hk : b.itemOffset + 4 ≤ k)
    (hfit : k + bytes.length ≤ buf.data.length) : SizesMatch b (buf.write k bytes) := by
  have hlen : (buf.write k bytes).data.length = buf.data.length := length_writeBytes hfit
  refine ⟨h.nested, hlen ▸ h.inside, fun o ho => ?_⟩
  rw [hlen, byteSize_write_of_le ((Nat.add_le_add_right (h.le_itemOffset o ho) 4).trans hk) (h.itemsBefore o ho),
    h.sizes o ho]

/-- A store through a pointer after the innermost item's header leaves every size, whether it
reaches the buffer or not. -/
theorem storeAt (h : SizesMatch b buf) {p : Ptr} {bytes : List UInt8}
    (hp : p.generation = buf.generation → b.itemOffset + 4 ≤ p.offset ∧ p.offset + bytes.length ≤ buf.data.length) :
    SizesMatch b (buf.storeAt p bytes) := by
  by_cases hgen : p.generation = buf.generation
  · rw [Buffer.storeAt_of_eq hgen]; exact h.write (hp hgen).1 (hp hgen).2
  · rwa [Buffer.storeAt_of_ne hgen]

/-- The parent's items, once the innermost builder is done. -/
theorem parent {c p : Builder} (h : SizesMatch c buf) (hp : c.parentOffsets = p.chain) : SizesMatch p buf := by
  have hchain : c.chain = c.itemOffset :: p.chain := by rw [Builder.chain, hp]
  have hnested := h.nested
  rw [hchain, List.pairwise_cons] at hnested
  refine ⟨hnested.2, (hnested.1 p.itemOffset (List.mem_cons_self _ _)).trans ?_, fun o ho => h.sizes o ?_⟩
  · exact (Nat.le_add_right _ _).trans h.inside
  · rw [hchain]; exact List.mem_cons_of_mem _ ho

/-- `add_padding(true)` counts the padding in every open item. -/
theorem addPadding_self (h : SizesMatch b buf) (a : Allocator) : SizesMatch b (b.addPadding a buf true) := by
  unfold Builder.addPadding
  dsimp only
  split
  · exact h
  · rw [if_pos rfl]
    have hdata := Buffer.reserveSpace_write_data a buf (List.replicate (alignBytes - b.size buf % alignBytes) 0)
    rw [List.length_replicate] at hdata
    have := h.addSize_of_data_eq hdata
    rwa [List.length_replicate] at this

/-- The destructor's `add_padding()` counts the padding in the parent's items, which are then the
open ones. -/
theorem addPadding_parent {c p : Builder} (h : SizesMatch c buf) (hp : c.parentOffsets = p.chain)
    (a : Allocator) : SizesMatch p (c.addPadding a buf false) := by
  unfold Builder.addPadding
  dsimp only
  split
  · exact h.parent hp
  · rw [if_neg Bool.false_ne_true, hp]
    have hdata := Buffer.reserveSpace_write_data a buf (List.replicate (alignBytes - c.size buf % alignBytes) 0)
    rw [List.length_replicate] at hdata
    have := (h.parent hp).addSize_of_data_eq hdata
    rwa [List.length_replicate] at this

/-- A derived builder's constructor, at the top level or on the innermost builder: the new item is
its fixed part, counted in its own size and in every open item's. -/
theorem make_write {parent : Option Builder} (hparent : ∀ p ∈ parent, SizesMatch p buf) (layout : Layout)
    (a : Allocator) (t : ItemType) :
    SizesMatch (Builder.make a buf parent (layout.sizeOf t)).1
      ((Builder.make a buf parent (layout.sizeOf t)).2.write buf.data.length (layout.image t)) := by
  have hF := layout.itemHeaderSize_le t
  have hitems : ∀ p ∈ parent, p.ItemsBefore buf.data.length := fun p hp => (hparent p hp).itemsBefore
  have hlen := length_make a hitems (layout.sizeOf t)
  have hW := length_make_write a hitems (layout.length_image t)
  have hself : byteSize ((Builder.make a buf parent (layout.sizeOf t)).2.write buf.data.length
      (layout.image t)).data buf.data.length = layout.sizeOf t % 2 ^ 32 :=
    byteSize_of_drop_eq (by rw [drop_make_write a hitems (Layout.length_image layout t), Layout.image])
  have hsizeSelf : byteSize ((Builder.make a buf parent (layout.sizeOf t)).2.write buf.data.length
      (layout.image t)).data buf.data.length =
      (((Builder.make a buf parent (layout.sizeOf t)).2.write buf.data.length (layout.image t)).data.length -
        buf.data.length) % 2 ^ 32 := by
    rw [hself, hW, Nat.add_sub_cancel_left]
  cases parent with
  | none =>
    refine ⟨List.pairwise_singleton _ _, ?_, fun o ho => ?_⟩
    · rw [hW]; exact Nat.add_le_add_left hF _
    · rw [List.mem_singleton.1 ho]; exact hsizeSelf
  | some p =>
    have hp := hparent p rfl
    -- the reservation, counted by the parent's `add_size`
    have hres := hp.addSize_of_data_eq (Buffer.reserveSpace_data a buf (layout.sizeOf t))
    rw [Buffer.length_fresh] at hres
    have hin := hp.inside
    unfold itemHeaderSize at hin hF
    -- `new (&item()) T{}` after the parent's header
    have hwrite : SizesMatch p ((Builder.make a buf (some p) (layout.sizeOf t)).2.write buf.data.length
        (layout.image t)) :=
      hres.write (by omega) (by rw [Layout.length_image]; exact hlen.ge)
    refine ⟨List.pairwise_cons.2 ⟨fun o ho => ?_, hp.nested⟩, ?_, fun o ho => ?_⟩
    · exact (Nat.add_le_add_right (hp.le_itemOffset o ho) _).trans hp.inside
    · show buf.data.length + itemHeaderSize ≤ _
      rw [hW]; unfold itemHeaderSize; omega
    · rcases List.mem_cons.1 ho with rfl | ho
      · exact hsizeSelf
      · exact hwrite.sizes o ho

/-- A derived builder's constructor on an open builder. -/
theorem make_write_some {p : Builder} (h : SizesMatch p buf) (layout : Layout) (a : Allocator) (t : ItemType) :
    SizesMatch (Builder.make a buf (some p) (layout.sizeOf t)).1
      ((Builder.make a buf (some p) (layout.sizeOf t)).2.write buf.data.length (layout.image t)) :=
  make_write (fun _ hq => Option.some_inj.1 hq ▸ h) layout a t

/-- An item copied in by `add_item` is counted by every open item. -/
theorem addItem (h : SizesMatch b buf) (a : Allocator) (item : List UInt8) : SizesMatch b (b.addItem a buf item) := by
  have htake : (item.take (paddedLength (byteSize item 0))).length ≤ paddedLength (byteSize item 0) :=
    (List.length_take_le _ _)
  have hdata : ((buf.reserveSpace a (paddedLength (byteSize item 0))).write buf.data.length
      (item.take (paddedLength (byteSize item 0)))).data =
      buf.data ++ (item.take (paddedLength (byteSize item 0)) ++
        (Buffer.fresh a buf.data.length (paddedLength (byteSize item 0))).drop
          (item.take (paddedLength (byteSize item 0))).length) := by
    rw [Buffer.write_data, Buffer.reserveSpace_data, writeBytes_append_right le_rfl, Nat.sub_self, writeBytes_zero]
  have := h.addSize_of_data_eq hdata
  rwa [List.length_append, List.length_drop, Buffer.length_fresh, Nat.add_sub_cancel' htake] at this

end SizesMatch

/-! ### Appending calls -/

/-- `f` appends bytes after the written part and returns how many, as `append` and
`append_with_zero` do. -/
def Appends (f : Buffer → ℕ × Buffer) : Prop :=
  ∀ buf, ∃ bytes : List UInt8, (f buf).2.data = buf.data ++ bytes ∧ (f buf).1 = bytes.length

section Appends

variable (a : Allocator)

theorem appends_append (bytes : List UInt8) : Appends fun buf => append a buf bytes :=
  fun buf => ⟨bytes, append_data a buf bytes, rfl⟩

theorem appends_appendWithZero (bytes : List UInt8) : Appends fun buf => appendWithZero a buf bytes :=
  fun buf => ⟨bytes ++ [0], by simp only [appendWithZero_eq_append, append_data],
    by simp only [appendWithZero_eq_append, append_fst]⟩

theorem appends_appendCString (str : CString) : Appends fun buf => appendCString a buf str :=
  appends_append a (str.bytes ++ [0])

end Appends

/-- `add_size(append…(…))`: the bytes appended are counted by every open item. -/
theorem SizesMatch.addSize_appends {b : Builder} {buf : Buffer} (h : SizesMatch b buf)
    {f : Buffer → ℕ × Buffer} (hf : Appends f) : SizesMatch b (b.addSize (f buf).2 (f buf).1) := by
  obtain ⟨bytes, hdata, hn⟩ := hf buf
  rw [hn]; exact h.addSize_of_data_eq hdata

/-! ### Growth of the buffer -/

/-- `buf'` is `buf` after more builder calls: its storage was relocated as often or more, and its
written part is as long or longer. A pointer into `buf`'s storage that is stale in `buf'` stays
stale, and one that is not points into bytes that are still written. -/
structure Memory.Buffer.Grows (buf buf' : Buffer) : Prop where
  /-- Relocations are never undone. -/
  generation_le : buf.generation ≤ buf'.generation
  /-- Written bytes are never taken back. -/
  length_le : buf.data.length ≤ buf'.data.length

namespace Memory.Buffer

theorem Grows.refl (buf : Buffer) : buf.Grows buf := ⟨le_rfl, le_rfl⟩

theorem Grows.trans {buf₁ buf₂ buf₃ : Buffer} (h₁ : buf₁.Grows buf₂) (h₂ : buf₂.Grows buf₃) : buf₁.Grows buf₃ :=
  ⟨h₁.generation_le.trans h₂.generation_le, h₁.length_le.trans h₂.length_le⟩

theorem grows_reserveSpace (a : Allocator) (buf : Buffer) (size : ℕ) : buf.Grows (buf.reserveSpace a size) := by
  refine ⟨?_, by simp⟩
  rw [reserveSpace_generation]; split <;> omega

theorem grows_write (buf : Buffer) (k : ℕ) (bytes : List UInt8) : buf.Grows (buf.write k bytes) :=
  ⟨le_rfl, le_length_writeBytes⟩

theorem grows_storeAt (buf : Buffer) (p : Ptr) (bytes : List UInt8) : buf.Grows (buf.storeAt p bytes) := by
  unfold storeAt; split
  · exact grows_write buf _ _
  · exact Grows.refl buf

end Memory.Buffer

section Grows

variable (a : Allocator)

theorem grows_addSizes (offsets : List ℕ) (buf : Buffer) (size : ℕ) : buf.Grows (addSizes offsets buf size) := by
  induction offsets generalizing buf with
  | nil => exact Buffer.Grows.refl buf
  | cons o os ih => exact (Buffer.grows_write buf o _).trans (ih _)

theorem grows_append (buf : Buffer) (bytes : List UInt8) : buf.Grows (append a buf bytes).2 :=
  (Buffer.grows_reserveSpace a buf _).trans (Buffer.grows_write _ _ _)

theorem grows_appendWithZero (buf : Buffer) (bytes : List UInt8) : buf.Grows (appendWithZero a buf bytes).2 := by
  rw [appendWithZero_eq_append]; exact grows_append a buf _

theorem Builder.grows_addSize (b : Builder) (buf : Buffer) (size : ℕ) : buf.Grows (b.addSize buf size) :=
  grows_addSizes _ _ _

theorem Builder.grows_addPadding (b : Builder) (buf : Buffer) (self : Bool) : buf.Grows (b.addPadding a buf self) := by
  unfold Builder.addPadding
  dsimp only
  split
  · exact Buffer.Grows.refl buf
  · have h := (Buffer.grows_reserveSpace a buf (alignBytes - b.size buf % alignBytes)).trans (Buffer.grows_write _
      buf.data.length (List.replicate (alignBytes - b.size buf % alignBytes) 0))
    split
    · exact h.trans (grows_addSizes _ _ _)
    · exact h.trans (grows_addSizes _ _ _)

theorem Builder.grows_addItem (b : Builder) (buf : Buffer) (item : List UInt8) : buf.Grows (b.addItem a buf item) :=
  ((Buffer.grows_reserveSpace a buf _).trans (Buffer.grows_write _ _ _)).trans (grows_addSizes _ _ _)

end Grows

/-! ### Tag lists -/

section TagList

variable (a : Allocator) {tb : TagListBuilder} {buf : Buffer}

theorem SizesMatch.addTagWith (h : SizesMatch tb.toBuilder buf) (check : Except Failure Unit)
    {appendKey appendValue : Buffer → ℕ × Buffer} (hk : Appends appendKey) (hv : Appends appendValue) :
    SizesMatch tb.toBuilder (TagListBuilder.addTagWith check appendKey appendValue tb buf).2 := by
  unfold TagListBuilder.addTagWith
  split
  · exact h
  · exact (h.addSize_appends hk).addSize_appends hv

/-- Every `add_tag` overload keeps the open items' sizes, whether it passes its checks or throws. -/
theorem SizesMatch.runAddTagCall (h : SizesMatch tb.toBuilder buf) (c : AddTagCall) :
    SizesMatch tb.toBuilder (c.run a tb buf).2 := by
  cases c with
  | cStrings key value =>
    unfold AddTagCall.run TagListBuilder.addTag
    exact h.addTagWith _ (appends_appendCString a key) (appends_appendCString a value)
  | withLength key value =>
    unfold AddTagCall.run TagListBuilder.addTagWithLength
    exact h.addTagWith _ (appends_appendWithZero a key) (appends_appendWithZero a value)
  | strings key value =>
    unfold AddTagCall.run TagListBuilder.addTagString
    exact h.addTagWith _ (appends_append a _) (appends_append a _)
  | tag t =>
    unfold AddTagCall.run TagListBuilder.addTagFromTag
    exact h.addTagWith _ (appends_appendCString a _) (appends_appendCString a _)

theorem SizesMatch.runAddTags (h : SizesMatch tb.toBuilder buf) (calls : List AddTagCall) :
    SizesMatch tb.toBuilder (runAddTags a tb buf calls).2 := by
  induction calls generalizing buf with
  | nil => exact h
  | cons c cs ih =>
    have hc := h.runAddTagCall a c
    unfold runAddTags
    split
    · next buf' heq => rw [heq] at hc; exact ih hc
    · next e buf' heq => rw [heq] at hc; exact hc

theorem grows_addTagWith (check : Except Failure Unit) {appendKey appendValue : Buffer → ℕ × Buffer}
    (hk : ∀ buf : Buffer, buf.Grows (appendKey buf).2) (hv : ∀ buf : Buffer, buf.Grows (appendValue buf).2) :
    buf.Grows (TagListBuilder.addTagWith check appendKey appendValue tb buf).2 := by
  unfold TagListBuilder.addTagWith
  split
  · exact Buffer.Grows.refl buf
  · exact (((hk buf).trans (Builder.grows_addSize _ _ _)).trans (hv _)).trans (Builder.grows_addSize _ _ _)

theorem grows_runAddTagCall (c : AddTagCall) : buf.Grows (c.run a tb buf).2 := by
  cases c with
  | withLength key value =>
    unfold AddTagCall.run TagListBuilder.addTagWithLength
    exact grows_addTagWith _ (fun _ => grows_appendWithZero a _ _) (fun _ => grows_appendWithZero a _ _)
  | _ =>
    unfold AddTagCall.run TagListBuilder.addTag TagListBuilder.addTagString TagListBuilder.addTagFromTag
    exact grows_addTagWith _ (fun _ => grows_append a _ _) (fun _ => grows_append a _ _)

theorem grows_runAddTags (calls : List AddTagCall) : buf.Grows (runAddTags a tb buf calls).2 := by
  induction calls generalizing buf with
  | nil => exact Buffer.Grows.refl buf
  | cons c cs ih =>
    have hc := @grows_runAddTagCall a tb buf c
    unfold runAddTags
    split
    · next buf' heq => rw [heq] at hc; exact hc.trans ih
    · next e buf' heq => rw [heq] at hc; exact hc

end TagList

/-! ### Node reference and relation member lists -/

section Members

variable (a : Allocator) {buf : Buffer}

theorem SizesMatch.addNodeRef {nb : NodeRefListBuilder} (h : SizesMatch nb.toBuilder buf) (r : NodeRef) :
    SizesMatch nb.toBuilder (nb.addNodeRef a buf r) := by
  have hdata := Buffer.reserveSpace_write_data a buf r.bytes
  rw [NodeRef.length_bytes] at hdata
  have := h.addSize_of_data_eq hdata
  rwa [NodeRef.length_bytes] at this

theorem SizesMatch.foldl_addNodeRef {nb : NodeRefListBuilder} (h : SizesMatch nb.toBuilder buf) (nodes : List NodeRef) :
    SizesMatch nb.toBuilder (nodes.foldl (nb.addNodeRef a) buf) := by
  induction nodes generalizing buf with
  | nil => exact h
  | cons r rs ih => exact ih (h.addNodeRef a r)

theorem grows_foldl_addNodeRef (nb : NodeRefListBuilder) (nodes : List NodeRef) :
    buf.Grows (nodes.foldl (nb.addNodeRef a) buf) := by
  induction nodes generalizing buf with
  | nil => exact Buffer.Grows.refl buf
  | cons r rs ih =>
    exact (((Buffer.grows_reserveSpace a buf _).trans (Buffer.grows_write _ _ _)).trans
      (Builder.grows_addSize _ _ _)).trans ih

/-- `add_role` stores `role_size` through the member pointer, which lies after the list's header
and within the written part whenever it reaches the buffer. -/
theorem SizesMatch.addRole {rb : RelationMemberListBuilder} (h : SizesMatch rb.toBuilder buf) {member : Ptr}
    (hmember : member.generation = buf.generation →
      rb.itemOffset + 4 ≤ member.offset + roleSizeOffset ∧ member.offset + roleSizeOffset + 2 ≤ buf.data.length)
    (role : List UInt8) : SizesMatch rb.toBuilder (rb.addRole a buf member role).2 := by
  unfold RelationMemberListBuilder.addRole
  split_ifs
  · exact h
  · exact ((h.storeAt (by simpa only [Ptr.field, length_encodeLE] using hmember)).addSize_appends
      (appends_appendWithZero a role)).addPadding_self a

theorem grows_addRole (rb : RelationMemberListBuilder) (member : Ptr) (role : List UInt8) :
    buf.Grows (rb.addRole a buf member role).2 := by
  unfold RelationMemberListBuilder.addRole
  split_ifs
  · exact Buffer.Grows.refl buf
  · exact (((Buffer.grows_storeAt _ _ _).trans (grows_appendWithZero a _ _)).trans (Builder.grows_addSize _ _ _)).trans
      (Builder.grows_addPadding a _ _ _)

/-- `add_member`'s record, reserved and stored through the pointer just taken, is counted by every
open item. -/
theorem SizesMatch.addMemberRecord {rb : RelationMemberListBuilder} (h : SizesMatch rb.toBuilder buf)
    (type : ItemType) (ref : ℤ) (full : Bool) :
    let buf₁ := buf.reserveSpace a relationMemberSize
    let buf₂ := rb.addSize (buf₁.storeAt (buf₁.ptr buf.data.length) (relationMemberImage ref type full))
      relationMemberSize
    SizesMatch rb.toBuilder buf₂ ∧ buf₂.data.length = buf.data.length + relationMemberSize := by
  intro buf₁ buf₂
  have hdata := reserveSpace_storeAt_relationMemberImage a buf ref type full
  have h₂ := h.addSize_of_data_eq hdata
  rw [length_relationMemberRecord] at h₂
  exact ⟨h₂, by rw [length_addSize (fun o ho => (h.itemsBefore o ho).trans (by rw [hdata, List.length_append]; omega)),
    hdata, List.length_append, length_relationMemberRecord]⟩

/-- The `role_size` field of `add_member`'s record lies after the list's header and within the written
part whenever the pointer to the record reaches the buffer: no reservation comes between the two. -/
theorem SizesMatch.roleField_inside {rb : RelationMemberListBuilder} (h : SizesMatch rb.toBuilder buf)
    (type : ItemType) (ref : ℤ) (full : Bool) :
    let buf₁ := buf.reserveSpace a relationMemberSize
    let buf₂ := rb.addSize (buf₁.storeAt (buf₁.ptr buf.data.length) (relationMemberImage ref type full))
      relationMemberSize
    (buf₁.ptr buf.data.length).generation = buf₂.generation →
      rb.itemOffset + 4 ≤ (buf₁.ptr buf.data.length).offset + roleSizeOffset ∧
        (buf₁.ptr buf.data.length).offset + roleSizeOffset + 2 ≤ buf₂.data.length := by
  intro buf₁ buf₂ _
  have hlen₂ : buf₂.data.length = buf.data.length + relationMemberSize := (h.addMemberRecord a type ref full).2
  have hoff : (buf₁.ptr buf.data.length).offset = buf.data.length := rfl
  have hin := h.inside
  have h16 : relationMemberSize = 16 := rfl
  have h12 : roleSizeOffset = 12 := rfl
  unfold itemHeaderSize at hin
  omega

/-- `add_member`: the record, its role and, for a full member, the member's copy are counted by
every open item, whether `add_role` throws or not. -/
theorem SizesMatch.addMember {rb : RelationMemberListBuilder} (h : SizesMatch rb.toBuilder buf) (type : ItemType)
    (ref : ℤ) (role : List UInt8) (fullMember : Option (List UInt8)) :
    SizesMatch rb.toBuilder (rb.addMember a buf type ref role fullMember).2 := by
  unfold RelationMemberListBuilder.addMember
  dsimp only
  have h₃ := (h.addMemberRecord a type ref fullMember.isSome).1.addRole a
    (h.roleField_inside a type ref fullMember.isSome) role
  rcases hR : RelationMemberListBuilder.addRole a rb (rb.addSize ((buf.reserveSpace a relationMemberSize).storeAt
    ((buf.reserveSpace a relationMemberSize).ptr buf.data.length) (relationMemberImage ref type fullMember.isSome))
    relationMemberSize) ((buf.reserveSpace a relationMemberSize).ptr buf.data.length) role with ⟨r, buf₃⟩
  rw [hR] at h₃
  rcases r with e | ⟨⟩
  · exact h₃
  · cases fullMember with
    | some item => exact h₃.addItem a item
    | none => exact h₃

theorem grows_addMember (rb : RelationMemberListBuilder) (type : ItemType) (ref : ℤ) (role : List UInt8)
    (fullMember : Option (List UInt8)) : buf.Grows (rb.addMember a buf type ref role fullMember).2 := by
  unfold RelationMemberListBuilder.addMember
  dsimp only
  have h := (((Buffer.grows_reserveSpace a buf relationMemberSize).trans (Buffer.grows_storeAt _
    ((buf.reserveSpace a relationMemberSize).ptr buf.data.length) (relationMemberImage ref type fullMember.isSome))).trans
    (Builder.grows_addSize rb.toBuilder _ relationMemberSize)).trans
    (grows_addRole a rb ((buf.reserveSpace a relationMemberSize).ptr buf.data.length) role)
  rcases hR : RelationMemberListBuilder.addRole a rb (rb.addSize ((buf.reserveSpace a relationMemberSize).storeAt
    ((buf.reserveSpace a relationMemberSize).ptr buf.data.length) (relationMemberImage ref type fullMember.isSome))
    relationMemberSize) ((buf.reserveSpace a relationMemberSize).ptr buf.data.length) role with ⟨r, buf₃⟩
  rw [hR] at h
  rcases r with e | ⟨⟩
  · exact h
  · cases fullMember with
    | some item => exact h.trans (Builder.grows_addItem a _ _ _)
    | none => exact h

end Members

/-! ### Changeset discussions -/

/-- `m_comment`, when set, points into storage the buffer has had, and, while that storage is the
current one, to a record after the discussion's header and within the written part. -/
def CommentReady (db : ChangesetDiscussionBuilder) (buf : Buffer) : Prop :=
  ∀ p ∈ db.comment, p.generation ≤ buf.generation ∧
    (p.generation = buf.generation →
      db.itemOffset + itemHeaderSize ≤ p.offset ∧ p.offset + changesetCommentSize ≤ buf.data.length)

theorem CommentReady.grows {db : ChangesetDiscussionBuilder} {buf buf' : Buffer} (h : CommentReady db buf)
    (hg : buf.Grows buf') : CommentReady db buf' := by
  intro p hp
  obtain ⟨hle, hcur⟩ := h p hp
  refine ⟨hle.trans hg.generation_le, fun heq => ?_⟩
  have hgen : p.generation = buf.generation := le_antisymm hle (heq ▸ hg.generation_le)
  exact ⟨(hcur hgen).1, (hcur hgen).2.trans hg.length_le⟩

section Discussion

variable (a : Allocator) {db : ChangesetDiscussionBuilder} {buf : Buffer}

theorem SizesMatch.addUser (h : SizesMatch db.toBuilder buf) {comment : Ptr}
    (hc : comment.generation = buf.generation →
      db.itemOffset + 4 ≤ comment.offset + commentUserSizeOffset ∧
        comment.offset + commentUserSizeOffset + 2 ≤ buf.data.length) (user : List UInt8) :
    SizesMatch db.toBuilder (db.addUser a buf comment user).2 := by
  unfold ChangesetDiscussionBuilder.addUser
  split_ifs
  · exact h
  · have h₁ := (@SizesMatch.storeAt db.toBuilder buf h (comment.field commentUserSizeOffset)
      (encodeLE 2 (user.length % 2 ^ 16 + 1)) (by simpa only [Ptr.field, length_encodeLE] using hc)).addSize_appends
      (appends_appendWithZero a user)
    exact h₁

theorem grows_addUser (db : ChangesetDiscussionBuilder) (comment : Ptr) (user : List UInt8) :
    buf.Grows (db.addUser a buf comment user).2 := by
  unfold ChangesetDiscussionBuilder.addUser
  split_ifs
  · exact Buffer.Grows.refl buf
  · exact ((Buffer.grows_storeAt _ _ _).trans (grows_appendWithZero a _ user)).trans
      (Builder.grows_addSize db.toBuilder _ (user.length + 1))

theorem SizesMatch.addText (h : SizesMatch db.toBuilder buf) {comment : Ptr}
    (hc : comment.generation = buf.generation →
      db.itemOffset + 4 ≤ comment.offset + textSizeOffset ∧ comment.offset + textSizeOffset + 4 ≤ buf.data.length)
    (text : List UInt8) : SizesMatch db.toBuilder (db.addText a buf comment text).2 := by
  unfold ChangesetDiscussionBuilder.addText
  split_ifs
  · exact h
  · exact ((h.storeAt (by simpa only [Ptr.field, length_encodeLE] using hc)).addSize_appends
      (appends_appendWithZero a text)).addPadding_self a

theorem grows_addText (db : ChangesetDiscussionBuilder) (comment : Ptr) (text : List UInt8) :
    buf.Grows (db.addText a buf comment text).2 := by
  unfold ChangesetDiscussionBuilder.addText
  split_ifs
  · exact Buffer.Grows.refl buf
  · exact (((Buffer.grows_storeAt _ _ _).trans (grows_appendWithZero a _ _)).trans (Builder.grows_addSize _ _ _)).trans
      (Builder.grows_addPadding a _ _ _)

/-- `add_comment` changes only `m_comment` of the builder. -/
theorem addComment_toBuilder (date uid : ℕ) (user : CString) :
    (db.addComment a buf date uid user).2.1.toBuilder = db.toBuilder := by
  unfold ChangesetDiscussionBuilder.addComment
  split_ifs <;> rfl

/-- `add_comment`: the record and the user name are counted by every open item, whether `add_user`
throws or not, and `m_comment` points to the record. -/
theorem SizesMatch.addComment (h : SizesMatch db.toBuilder buf) (hready : CommentReady db buf) (date uid : ℕ)
    (user : CString) :
    SizesMatch db.toBuilder (db.addComment a buf date uid user).2.2 ∧
      CommentReady (db.addComment a buf date uid user).2.1 (db.addComment a buf date uid user).2.2 := by
  have hin := h.inside
  unfold itemHeaderSize at hin
  unfold ChangesetDiscussionBuilder.addComment
  split_ifs
  · exact ⟨h, hready⟩
  dsimp only
  set buf₁ := buf.reserveSpace a changesetCommentSize
  have hdata := reserveSpace_storeAt_changesetCommentImage a buf date uid
  have h₂ := h.addSize_of_data_eq hdata
  rw [length_changesetCommentRecord] at h₂
  have hlen₂ : (db.addSize (buf₁.storeAt (buf₁.ptr buf.data.length) (changesetCommentImage date uid))
      changesetCommentSize).data.length = buf.data.length + changesetCommentSize := by
    rw [length_addSize (fun o ho => (h.itemsBefore o ho).trans (by rw [hdata, List.length_append]; omega)), hdata,
      List.length_append, length_changesetCommentRecord]
  have hgen₂ : (db.addSize (buf₁.storeAt (buf₁.ptr buf.data.length) (changesetCommentImage date uid))
      changesetCommentSize).generation = buf₁.generation := by
    rw [Builder.addSize_generation, Buffer.storeAt_generation]
  refine ⟨@SizesMatch.addUser a _ _ h₂ (buf₁.ptr buf.data.length) (fun _ => ⟨?_, ?_⟩) user.bytes, ?_⟩
  · unfold Buffer.ptr commentUserSizeOffset; dsimp only; omega
  · rw [hlen₂]; unfold Buffer.ptr commentUserSizeOffset changesetCommentSize; dsimp only; omega
  · intro p hp
    cases Option.mem_def.1 hp
    have hg := @grows_addUser a (db.addSize (buf₁.storeAt (buf₁.ptr buf.data.length) (changesetCommentImage date uid))
      changesetCommentSize) { db with comment := some (buf₁.ptr buf.data.length) } (buf₁.ptr buf.data.length) user.bytes
    refine ⟨hgen₂.symm.le.trans hg.generation_le, fun heq => ⟨?_, ?_⟩⟩
    · show db.itemOffset + itemHeaderSize ≤ buf.data.length
      unfold itemHeaderSize; omega
    · exact (hlen₂.symm ▸ le_rfl : buf.data.length + changesetCommentSize ≤ _).trans hg.length_le

theorem grows_addComment (db : ChangesetDiscussionBuilder) (date uid : ℕ) (user : CString) :
    buf.Grows (db.addComment a buf date uid user).2.2 := by
  unfold ChangesetDiscussionBuilder.addComment
  split_ifs
  · exact Buffer.Grows.refl buf
  · exact (((Buffer.grows_reserveSpace a buf _).trans (Buffer.grows_storeAt _ _ _)).trans
      (Builder.grows_addSize _ _ _)).trans (grows_addUser a _ _ _)

/-- `add_comment_text` changes only `m_comment` of the builder. -/
theorem addCommentTextWith_toBuilder (text : List UInt8) :
    (db.addCommentTextWith a buf text).2.1.toBuilder = db.toBuilder := by
  unfold ChangesetDiscussionBuilder.addCommentTextWith
  split <;> rfl

/-- After `add_comment_text`, no comment is pending, or none was. -/
theorem commentReady_addCommentTextWith (text : List UInt8) (buf' : Buffer) :
    CommentReady (db.addCommentTextWith a buf text).2.1 buf' := by
  unfold ChangesetDiscussionBuilder.addCommentTextWith
  split
  · next hnone => intro p hp; rw [hnone] at hp; cases hp
  · intro p hp; cases hp

/-- `add_comment_text`: the text is counted by every open item, and `text_size` is stored through
`m_comment` only where it still points into the current storage, after the discussion's header. -/
theorem SizesMatch.addCommentTextWith (h : SizesMatch db.toBuilder buf) (hready : CommentReady db buf)
    (text : List UInt8) : SizesMatch db.toBuilder (db.addCommentTextWith a buf text).2.2 := by
  unfold ChangesetDiscussionBuilder.addCommentTextWith
  split
  · exact h
  · next comment hcomment =>
    have hcur := (hready comment hcomment).2
    exact @SizesMatch.addText a { db with comment := none } buf h comment
      (fun hgen => ⟨by show db.itemOffset + 4 ≤ _; have := (hcur hgen).1; unfold itemHeaderSize at this
                       unfold textSizeOffset; omega,
        by have := (hcur hgen).2; unfold changesetCommentSize at this; unfold textSizeOffset; omega⟩) text

theorem grows_addCommentTextWith (db : ChangesetDiscussionBuilder) (text : List UInt8) :
    buf.Grows (db.addCommentTextWith a buf text).2.2 := by
  unfold ChangesetDiscussionBuilder.addCommentTextWith
  split
  · exact Buffer.Grows.refl buf
  · exact grows_addText a _ _ _

/-- The destructor, when no comment is pending: the padding is counted by the parent's items. -/
theorem SizesMatch.destroyDiscussion (h : SizesMatch db.toBuilder buf) {p : Builder} (hp : db.parentOffsets = p.chain)
    {buf' : Buffer} (hd : db.destroy a buf = (.ok (), buf')) : SizesMatch p buf' := by
  unfold ChangesetDiscussionBuilder.destroy at hd
  split_ifs at hd
  · cases hd; exact h.addPadding_parent hp a
  · cases hd

theorem grows_destroyDiscussion (db : ChangesetDiscussionBuilder) : buf.Grows (db.destroy a buf).2 := by
  unfold ChangesetDiscussionBuilder.destroy
  split_ifs
  · exact Builder.grows_addPadding a _ _ _
  · exact Buffer.Grows.refl buf

end Discussion

/-! ### Object and changeset builders -/

section Objects

variable (layout : Layout) (a : Allocator) {buf : Buffer}

/-- A derived builder's constructor grows the buffer. -/
theorem grows_make_write (parent : Option Builder) (size : ℕ) (image : List UInt8) :
    buf.Grows ((Builder.make a buf parent size).2.write buf.data.length image) :=
  ((Buffer.grows_reserveSpace a buf size).trans (grows_addSizes _ _ _)).trans (Buffer.grows_write _ _ _)

/-- The constructor of a top-level object or changeset builder: the new item is its fixed part and
the user slot, all counted in its size. -/
theorem sizesMatch_makeWithUserSlot (type : ItemType) {minSizeForUser userSizeOffset : ℕ}
    (hU : itemHeaderSize ≤ userSizeOffset) (hU' : userSizeOffset + 2 ≤ layout.sizeOf type + minSizeForUser) :
    SizesMatch (makeWithUserSlot layout a type minSizeForUser userSizeOffset buf none).1
        (makeWithUserSlot layout a type minSizeForUser userSizeOffset buf none).2 ∧
      (makeWithUserSlot layout a type minSizeForUser userSizeOffset buf none).2.data.length =
        buf.data.length + (layout.sizeOf type + minSizeForUser) := by
  have hF := layout.itemHeaderSize_le type
  have hdrop := @drop_makeWithUserSlot layout a buf none (fun _ h => nomatch h) type _ _ hU hU'
  have hin := add_itemHeaderSize_le_of_drop_eq hdrop
  have hlen := congrArg List.length hdrop
  rw [List.length_drop, List.length_append, length_itemHeader, length_writeBytes
    (by simp only [length_encodeLE, List.length_replicate]; omega), List.length_replicate] at hlen
  have hdata : (makeWithUserSlot layout a type minSizeForUser userSizeOffset buf none).2.data.length =
      buf.data.length + (layout.sizeOf type + minSizeForUser) := by
    unfold itemHeaderSize at hF hlen hin; omega
  have hoff : (makeWithUserSlot layout a type minSizeForUser userSizeOffset buf none).1.itemOffset =
      buf.data.length := rfl
  refine ⟨⟨List.pairwise_singleton _ _, hin, fun o ho => ?_⟩, hdata⟩
  rw [List.mem_singleton.1 ho, hoff, byteSize_of_drop_eq hdrop, hdata, Nat.add_sub_cancel_left]

/-- `set_user(user, length)` within the item: the extra zeros are counted by every open item and are a
whole number of alignment units, and the name and `user_size` are written after the header, within
the written part. -/
theorem SizesMatch.setUserWith {b : Builder} (h : SizesMatch b buf) {nameOffset userSizeOffset sizeBound availableSpace : ℕ}
    (hN : itemHeaderSize ≤ nameOffset) (hNfit : b.itemOffset + nameOffset + availableSpace ≤ buf.data.length)
    (hU : itemHeaderSize ≤ userSizeOffset) (hUfit : b.itemOffset + userSizeOffset + 2 ≤ buf.data.length)
    (user : List UInt8) (length : ℕ) :
    let r := setUserWith a nameOffset userSizeOffset sizeBound availableSpace b buf user length
    SizesMatch b r.2 ∧ r.2.data.length % alignBytes = buf.data.length % alignBytes := by
  unfold itemHeaderSize at hN hU
  unfold Osmium.setUserWith
  by_cases hcheck : readLE buf.data (b.itemOffset + userSizeOffset) 2 = 1 ∧ b.size buf ≤ sizeBound
  · rw [if_pos hcheck]
    dsimp only
    -- the name, then `user_size`, written after the extra reservation if there is one
    have hwrites : ∀ {buf₁ : Buffer}, SizesMatch b buf₁ → b.itemOffset + nameOffset + length ≤ buf₁.data.length →
        buf.data.length ≤ buf₁.data.length →
        let buf₂ := (buf₁.write (b.itemOffset + nameOffset) (user.take length)).write (b.itemOffset + userSizeOffset)
          (encodeLE 2 (length + 1))
        SizesMatch b buf₂ ∧ buf₂.data.length = buf₁.data.length := by
      intro buf₁ h₁ hname hgrow
      have htake := List.length_take_le length user
      have hlen₂ : (writeBytes buf₁.data (b.itemOffset + nameOffset) (user.take length)).length = buf₁.data.length :=
        length_writeBytes (by omega)
      have h₂ := @SizesMatch.write _ _ h₁ (b.itemOffset + nameOffset) (user.take length) (by omega) (by omega)
      exact ⟨@SizesMatch.write _ _ h₂ (b.itemOffset + userSizeOffset) (encodeLE 2 (length + 1)) (by omega)
        (by rw [length_encodeLE, Buffer.write_data, hlen₂]; omega),
        (length_writeBytes (by rw [length_encodeLE, Buffer.write_data, hlen₂]; omega)).trans hlen₂⟩
    split_ifs with hA
    · have hdata := Buffer.reserveSpace_write_data a buf (List.replicate (paddedLength (length - availableSpace)) 0)
      rw [List.length_replicate] at hdata
      have h₁ := h.addSize_of_data_eq hdata
      rw [List.length_replicate] at h₁
      have hlen := length_addSize (fun o ho => (h.itemsBefore o ho).trans (by rw [hdata, List.length_append]; omega))
        (paddedLength (length - availableSpace))
      rw [hdata, List.length_append, List.length_replicate] at hlen
      have := le_paddedLength (length - availableSpace)
      have hmod := paddedLength_mod (length - availableSpace)
      obtain ⟨h₂, hlen₂⟩ := hwrites h₁ (by omega) (by omega)
      exact ⟨h₂, by rw [hlen₂, hlen]; unfold alignBytes at hmod ⊢; omega⟩
    · obtain ⟨h₂, hlen₂⟩ := hwrites h (by omega) le_rfl
      exact ⟨h₂, by rw [hlen₂]⟩
  · rw [if_neg hcheck]; exact ⟨h, rfl⟩

theorem grows_setUserWith (nameOffset userSizeOffset sizeBound availableSpace : ℕ) (b : Builder) (user : List UInt8)
    (length : ℕ) : buf.Grows (setUserWith a nameOffset userSizeOffset sizeBound availableSpace b buf user length).2 := by
  unfold setUserWith
  by_cases hcheck : readLE buf.data (b.itemOffset + userSizeOffset) 2 = 1 ∧ b.size buf ≤ sizeBound
  · rw [if_pos hcheck]
    dsimp only
    by_cases hA : length > availableSpace
    · rw [if_pos hA]
      exact (((Buffer.grows_reserveSpace a buf _).trans (Buffer.grows_write _ _ _)).trans
        (Builder.grows_addSize _ _ _)).trans ((Buffer.grows_write _ _ _).trans (Buffer.grows_write _ _ _))
    · rw [if_neg hA]
      exact (Buffer.grows_write _ _ _).trans (Buffer.grows_write _ _ _)
  · rw [if_neg hcheck]; exact Buffer.Grows.refl buf

/-- `add_tags(tags)`: the tag list is constructed on the object builder, filled and destroyed; its
bytes and padding are counted by every open item, whether an `add_tag` throws or not. -/
theorem SizesMatch.addTags {ob : OSMObjectBuilder} (h : SizesMatch ob.toBuilder buf) (tags : List (CString × CString)) :
    SizesMatch ob.toBuilder (ob.addTags layout a buf tags).2 := by
  have hmade : SizesMatch (TagListBuilder.make layout a buf (some ob.toBuilder)).1.toBuilder
      (TagListBuilder.make layout a buf (some ob.toBuilder)).2 :=
    h.make_write_some layout a .tagList
  exact (hmade.runAddTags a _).addPadding_parent rfl a

theorem grows_addTags (ob : OSMObjectBuilder) (tags : List (CString × CString)) :
    buf.Grows (ob.addTags layout a buf tags).2 :=
  ((grows_make_write a _ _ _).trans (grows_runAddTags a _)).trans (Builder.grows_addPadding a _ _ _)

/-- `WayBuilder::add_node_refs(nodes)`: the node list is constructed on the way builder, filled and
destroyed; its bytes and padding are counted by every open item. -/
theorem SizesMatch.addNodeRefs {ob : OSMObjectBuilder} (h : SizesMatch ob.toBuilder buf) (nodes : List NodeRef) :
    SizesMatch ob.toBuilder (ob.addNodeRefs layout a buf nodes) := by
  have hmade : SizesMatch (NodeRefListBuilder.make layout a .wayNodeList buf (some ob.toBuilder)).1.toBuilder
      (NodeRefListBuilder.make layout a .wayNodeList buf (some ob.toBuilder)).2 :=
    h.make_write_some layout a .wayNodeList
  exact (hmade.foldl_addNodeRef a nodes).addPadding_parent rfl a

theorem grows_addNodeRefs (ob : OSMObjectBuilder) (nodes : List NodeRef) :
    buf.Grows (ob.addNodeRefs layout a buf nodes) :=
  ((grows_make_write a _ _ _).trans (grows_foldl_addNodeRef a _ _)).trans (Builder.grows_addPadding a _ _ _)

theorem grows_makeWithUserSlot (type : ItemType) (minSizeForUser userSizeOffset : ℕ) (parent : Option Builder) :
    buf.Grows (makeWithUserSlot layout a type minSizeForUser userSizeOffset buf parent).2 :=
  ((grows_make_write a _ _ _).trans (Builder.grows_addSize _ _ _)).trans
    ((Buffer.grows_write _ _ _).trans (Buffer.grows_write _ _ _))

/-- `set_user` of an object builder whose fixed part and user slot are written: the sizes are kept,
and the item grows by whole alignment units. -/
theorem SizesMatch.objectSetUser {ob : OSMObjectBuilder} (h : SizesMatch ob.toBuilder buf)
    (hready : ob.itemOffset + layout.sizeOf ob.type + OSMObjectBuilder.minSizeForUser ≤ buf.data.length)
    (user : List UInt8) (length : ℕ) :
    SizesMatch ob.toBuilder (ob.setUser layout a buf user length).2 ∧
      (ob.setUser layout a buf user length).2.data.length % alignBytes = buf.data.length % alignBytes := by
  have hF := layout.itemHeaderSize_le ob.type
  have hm : OSMObjectBuilder.minSizeForUser = 8 := rfl
  unfold itemHeaderSize at hF
  exact h.setUserWith a (by unfold itemHeaderSize; omega) (by omega) (layout.itemHeaderSize_le _) (by omega) user length

/-- `set_user` of a changeset builder whose fixed part and user slot are written: the sizes are kept,
and the item grows by whole alignment units. -/
theorem SizesMatch.changesetSetUser {cb : ChangesetBuilder} (h : SizesMatch cb.toBuilder buf)
    (hready : cb.itemOffset + layout.sizeOf .changeset + ChangesetBuilder.minSizeForUser ≤ buf.data.length)
    (user : List UInt8) (length : ℕ) :
    SizesMatch cb.toBuilder (cb.setUser layout a buf user length).2 ∧
      (cb.setUser layout a buf user length).2.data.length % alignBytes = buf.data.length % alignBytes := by
  have hC := layout.changesetUserSizeOffset_add_le
  have hm : ChangesetBuilder.minSizeForUser = 8 := rfl
  exact h.setUserWith a (layout.itemHeaderSize_le _) (by omega) layout.itemHeaderSize_le_changesetUserSizeOffset
    (by omega) user length

end Objects

/-! ### Sessions -/

/-- An open builder of a session, of one of the builder classes. -/
inductive OpenBuilder
  | object (ob : OSMObjectBuilder)
  | changeset (cb : ChangesetBuilder)
  | tagList (tb : TagListBuilder)
  | nodeRefList (nb : NodeRefListBuilder)
  | memberList (rb : RelationMemberListBuilder)
  | discussion (db : ChangesetDiscussionBuilder)

namespace OpenBuilder

/-- The `Builder` base of an open builder. -/
def toBuilder : OpenBuilder → Builder
  | object ob => ob.toBuilder
  | changeset cb => cb.toBuilder
  | tagList tb => tb.toBuilder
  | nodeRefList nb => nb.toBuilder
  | memberList rb => rb.toBuilder
  | discussion db => db.toBuilder

/-- The destructor: object and changeset builders have none; the list builders pad their item,
counting the padding in the parent only; a changeset discussion asserts that no comment is pending
and then pads the same way. -/
def destroy (a : Allocator) (buf : Buffer) : OpenBuilder → Except Failure Unit × Buffer
  | object _ | changeset _ => (.ok (), buf)
  | tagList tb => (.ok (), tb.destroy a buf)
  | nodeRefList nb => (.ok (), nb.destroy a buf)
  | memberList rb => (.ok (), rb.destroy a buf)
  | discussion db => db.destroy a buf

/-- What an open builder needs of the buffer for its calls to stay within the written part: an
object's or a changeset's fixed part and user slot are written, and a discussion's pending comment
is `CommentReady`. -/
def Ready (layout : Layout) (buf : Buffer) : OpenBuilder → Prop
  | object ob => ob.itemOffset + layout.sizeOf ob.type + OSMObjectBuilder.minSizeForUser ≤ buf.data.length
  | changeset cb =>
    cb.itemOffset + layout.sizeOf .changeset + ChangesetBuilder.minSizeForUser ≤ buf.data.length
  | discussion db => CommentReady db buf
  | tagList _ | nodeRefList _ | memberList _ => True

theorem Ready.grows {layout : Layout} {buf buf' : Buffer} {b : OpenBuilder} (h : b.Ready layout buf)
    (hg : buf.Grows buf') : b.Ready layout buf' := by
  cases b with
  | object ob => exact h.trans hg.length_le
  | changeset cb => exact h.trans hg.length_le
  | discussion db => exact CommentReady.grows h hg
  | _ => trivial

/-- The open builders, innermost first: each was constructed on the next, and the last at the top
level. -/
def Linked : List OpenBuilder → Prop
  | [] => True
  | [b] => b.toBuilder.parentOffsets = []
  | b :: c :: rest => b.toBuilder.parentOffsets = c.toBuilder.chain ∧ Linked (c :: rest)

/-- Every open builder's item is in the innermost builder's chain. -/
theorem Linked.mem_chain {b : OpenBuilder} {rest : List OpenBuilder} (h : Linked (b :: rest)) :
    ∀ c ∈ b :: rest, c.toBuilder.itemOffset ∈ b.toBuilder.chain := by
  induction rest generalizing b with
  | nil => intro c hc; rw [List.mem_singleton.1 hc]; exact List.mem_cons_self _ _
  | cons c' rest ih =>
    intro c hc
    rcases List.mem_cons.1 hc with rfl | hc
    · exact List.mem_cons_self _ _
    · have hmem := ih h.2 c hc
      rw [Builder.chain, h.1]; exact List.mem_cons_of_mem _ hmem

end OpenBuilder

/-- A builder session on one buffer: the buffer, and the open builders, innermost first. -/
structure Session where
  /-- The buffer the builders append to. -/
  buf : Buffer
  /-- The open builders, innermost first. -/
  stack : List OpenBuilder

/-- One call in a session: a constructor on the innermost open builder (or at the top level, when
none is open), a member function of the innermost builder, or its destructor. -/
inductive Op
  /-- `NodeBuilder`, `WayBuilder`, `RelationBuilder` or `AreaBuilder(buffer, parent)`. -/
  | newObject (type : ItemType)
  /-- `ChangesetBuilder(buffer, parent)`. -/
  | newChangeset
  /-- `TagListBuilder(buffer, parent)`. -/
  | newTagList
  /-- `WayNodeListBuilder`, `OuterRingBuilder` or `InnerRingBuilder(buffer, parent)`. -/
  | newNodeRefList (type : ItemType)
  /-- `RelationMemberListBuilder(buffer, parent)`. -/
  | newMemberList
  /-- `ChangesetDiscussionBuilder(buffer, parent)`. -/
  | newDiscussion
  /-- `set_user(user, length)` of an object or changeset builder. -/
  | setUser (user : List UInt8) (length : ℕ)
  /-- An `add_tag` overload of a tag list builder. -/
  | addTag (call : AddTagCall)
  /-- `add_node_ref(node_ref)`. -/
  | addNodeRef (ref : NodeRef)
  /-- `add_member(type, ref, role, role_length, full_member)`. -/
  | addMember (type : ItemType) (ref : ℤ) (role : List UInt8) (fullMember : Option (List UInt8))
  /-- `add_comment(date, uid, user)`. -/
  | addComment (date uid : ℕ) (user : CString)
  /-- `add_comment_text(text)`. -/
  | addCommentText (text : List UInt8)
  /-- `add_tags(tags)` of an object builder. -/
  | addTags (tags : List (CString × CString))
  /-- `WayBuilder::add_node_refs(nodes)`. -/
  | addNodeRefs (nodes : List NodeRef)
  /-- The innermost builder's destructor. -/
  | close

/-- The constructors of object and changeset builders. -/
def Op.opensObject : Op → Bool
  | newObject _ | newChangeset => true
  | _ => false

namespace Session

variable (layout : Layout) (a : Allocator)

/-- The session after a call on its buffer that leaves the open builders, if the call returns
normally. -/
def after (s : Session) (r : Except Failure Unit × Buffer) : Option Session :=
  match r.1 with
  | .ok () => some ⟨r.2, s.stack⟩
  | .error _ => none

/-- The innermost open builder, the parent of a builder constructed now. -/
def parent (s : Session) : Option Builder := s.stack.head?.map OpenBuilder.toBuilder

/-- One call; `none` when the innermost builder has no such member, or when the call throws or
fails an assertion. -/
def step (s : Session) : Op → Option Session
  | .newObject type =>
    let made := OSMObjectBuilder.make layout a type s.buf s.parent
    some ⟨made.2, .object made.1 :: s.stack⟩
  | .newChangeset =>
    let made := ChangesetBuilder.make layout a s.buf s.parent
    some ⟨made.2, .changeset made.1 :: s.stack⟩
  | .newTagList =>
    let made := TagListBuilder.make layout a s.buf s.parent
    some ⟨made.2, .tagList made.1 :: s.stack⟩
  | .newNodeRefList type =>
    let made := NodeRefListBuilder.make layout a type s.buf s.parent
    some ⟨made.2, .nodeRefList made.1 :: s.stack⟩
  | .newMemberList =>
    let made := RelationMemberListBuilder.make layout a s.buf s.parent
    some ⟨made.2, .memberList made.1 :: s.stack⟩
  | .newDiscussion =>
    let made := ChangesetDiscussionBuilder.make layout a s.buf s.parent
    some ⟨made.2, .discussion made.1 :: s.stack⟩
  | .setUser user length =>
    match s.stack with
    | .object ob :: _ => s.after (ob.setUser layout a s.buf user length)
    | .changeset cb :: _ => s.after (cb.setUser layout a s.buf user length)
    | _ => none
  | .addTag c =>
    match s.stack with
    | .tagList tb :: _ => s.after (c.run a tb s.buf)
    | _ => none
  | .addNodeRef r =>
    match s.stack with
    | .nodeRefList nb :: _ => some ⟨nb.addNodeRef a s.buf r, s.stack⟩
    | _ => none
  | .addMember type ref role fullMember =>
    match s.stack with
    | .memberList rb :: _ => s.after (rb.addMember a s.buf type ref role fullMember)
    | _ => none
  | .addComment date uid user =>
    match s.stack with
    | .discussion db :: rest =>
      match db.addComment a s.buf date uid user with
      | (.ok (), db', buf') => some ⟨buf', .discussion db' :: rest⟩
      | _ => none
    | _ => none
  | .addCommentText text =>
    match s.stack with
    | .discussion db :: rest =>
      match db.addCommentTextWith a s.buf text with
      | (.ok (), db', buf') => some ⟨buf', .discussion db' :: rest⟩
      | _ => none
    | _ => none
  | .addTags tags =>
    match s.stack with
    | .object ob :: _ => s.after (ob.addTags layout a s.buf tags)
    | _ => none
  | .addNodeRefs nodes =>
    match s.stack with
    | .object ob :: _ => if ob.type = .way then some ⟨ob.addNodeRefs layout a s.buf nodes, s.stack⟩ else none
    | _ => none
  | .close =>
    match s.stack with
    | [] => none
    | b :: rest =>
      match b.destroy a s.buf with
      | (.ok (), buf') => some ⟨buf', rest⟩
      | _ => none

/-- What every session keeps while no object or changeset builder is constructed on an open
builder: the open builders are linked, the innermost one's `SizesMatch` holds, and every open
builder is `Ready`. -/
structure Valid (s : Session) : Prop where
  /-- Each open builder was constructed on the next. -/
  linked : OpenBuilder.Linked s.stack
  /-- The open items' sizes are their bytes. -/
  sizes : ∀ b ∈ s.stack.head?, SizesMatch b.toBuilder s.buf
  /-- Each open builder's calls stay within the written part. -/
  ready : ∀ b ∈ s.stack, b.Ready layout s.buf

/-- A session with no open builder: nothing is to be kept. -/
theorem valid_nil (layout : Layout) (buf : Buffer) : Valid layout ⟨buf, []⟩ :=
  ⟨trivial, fun _ h => (nomatch h), fun _ h => (nomatch h)⟩

end Session

/-! ### One call keeps a session valid -/

namespace OpenBuilder

theorem Linked.tail {b : OpenBuilder} {rest : List OpenBuilder} (h : Linked (b :: rest)) : Linked rest := by
  rcases rest with _ | ⟨c, rest⟩
  · trivial
  · exact h.2

/-- A builder constructed on the innermost open builder, or at the top level when none is open. -/
theorem Linked.cons {stack : List OpenBuilder} (h : Linked stack) {b : OpenBuilder}
    (hb : b.toBuilder.parentOffsets = ((stack.head?.map toBuilder).map Builder.chain).getD []) :
    Linked (b :: stack) := by
  rcases stack with _ | ⟨c, rest⟩
  · exact hb
  · exact ⟨hb, h⟩

theorem Linked.of_toBuilder_eq {b b' : OpenBuilder} {rest : List OpenBuilder} (h : Linked (b :: rest))
    (hb : b'.toBuilder = b.toBuilder) : Linked (b' :: rest) := by
  rcases rest with _ | ⟨c, rest⟩
  · show b'.toBuilder.parentOffsets = []
    rw [hb]; exact h
  · exact ⟨by rw [hb]; exact h.1, h.2⟩

theorem grows_destroy (a : Allocator) (b : OpenBuilder) (buf : Buffer) : buf.Grows (b.destroy a buf).2 := by
  cases b with
  | object _ | changeset _ => exact Buffer.Grows.refl buf
  | tagList _ | nodeRefList _ | memberList _ => exact Builder.grows_addPadding a _ _ _
  | discussion db => exact grows_destroyDiscussion a db

end OpenBuilder

/-- The innermost builder's destructor, when it returns normally: the parent's sizes are its bytes. -/
theorem SizesMatch.destroy {a : Allocator} {b : OpenBuilder} {buf buf' : Buffer} (h : SizesMatch b.toBuilder buf)
    {p : Builder} (hp : b.toBuilder.parentOffsets = p.chain) (hd : b.destroy a buf = (.ok (), buf')) :
    SizesMatch p buf' := by
  cases b with
  | object _ | changeset _ => cases hd; exact h.parent hp
  | tagList _ | nodeRefList _ | memberList _ => cases hd; exact h.addPadding_parent hp a
  | discussion db => exact h.destroyDiscussion a hp hd

namespace Session

variable {layout : Layout} {a : Allocator}

theorem head_sizes {b : OpenBuilder} {rest : List OpenBuilder} {buf : Buffer} (h : SizesMatch b.toBuilder buf) :
    ∀ c ∈ (b :: rest).head?, SizesMatch c.toBuilder buf := fun c hc => by
  rw [List.head?_cons, Option.mem_def, Option.some_inj] at hc
  exact hc ▸ h

theorem Valid.head {b : OpenBuilder} {rest : List OpenBuilder} {buf : Buffer} (hv : Valid layout ⟨buf, b :: rest⟩) :
    SizesMatch b.toBuilder buf :=
  hv.sizes b rfl

theorem Valid.ready_head {b : OpenBuilder} {rest : List OpenBuilder} {buf : Buffer}
    (hv : Valid layout ⟨buf, b :: rest⟩) : b.Ready layout buf :=
  hv.ready b (List.mem_cons_self _ _)

theorem Valid.parent {s : Session} (hv : s.Valid layout) : ∀ p ∈ s.parent, SizesMatch p s.buf := by
  intro p hp
  obtain ⟨b, hb, rfl⟩ := Option.mem_map.1 hp
  exact hv.sizes b hb

/-- A call that keeps the open builders and grows the buffer. -/
theorem Valid.keep {s : Session} (hv : s.Valid layout) {buf' : Buffer} (hg : s.buf.Grows buf')
    (hsizes : ∀ b ∈ s.stack.head?, SizesMatch b.toBuilder buf') : Valid layout ⟨buf', s.stack⟩ :=
  ⟨hv.linked, hsizes, fun b hb => (hv.ready b hb).grows hg⟩

theorem Valid.after {s s' : Session} (hv : s.Valid layout) {r : Except Failure Unit × Buffer} (hg : s.buf.Grows r.2)
    (hsizes : ∀ b ∈ s.stack.head?, SizesMatch b.toBuilder r.2) (hs : s.after r = some s') : s'.Valid layout := by
  unfold Session.after at hs
  split at hs
  · cases hs; exact hv.keep hg hsizes
  · cases hs

/-- A builder constructed on the innermost open builder, or at the top level when none is open. -/
theorem Valid.push {s : Session} (hv : s.Valid layout) {b : OpenBuilder} {buf' : Buffer} (hg : s.buf.Grows buf')
    (hlink : b.toBuilder.parentOffsets = (s.parent.map Builder.chain).getD [])
    (hsizes : SizesMatch b.toBuilder buf') (hready : b.Ready layout buf') : Valid layout ⟨buf', b :: s.stack⟩ :=
  ⟨hv.linked.cons hlink, head_sizes hsizes, List.forall_mem_cons.2 ⟨hready, fun c hc => (hv.ready c hc).grows hg⟩⟩

/-- The constructor of a derived builder whose item is of kind `t`. -/
theorem Valid.push_make {s : Session} (hv : s.Valid layout) (t : ItemType) {b : OpenBuilder}
    (hb : b.toBuilder = (Builder.make a s.buf s.parent (layout.sizeOf t)).1)
    (hready : b.Ready layout ((Builder.make a s.buf s.parent (layout.sizeOf t)).2.write s.buf.data.length (layout.image t))) :
    Valid layout ⟨(Builder.make a s.buf s.parent (layout.sizeOf t)).2.write s.buf.data.length (layout.image t),
      b :: s.stack⟩ :=
  hv.push (grows_make_write a _ _ _) (by rw [hb]; rfl) (hb ▸ SizesMatch.make_write hv.parent layout a t) hready

/-- A call of the innermost changeset discussion builder that changes only its `m_comment`. -/
theorem Valid.replace {db db' : ChangesetDiscussionBuilder} {rest : List OpenBuilder} {buf buf' : Buffer}
    (hv : Valid layout ⟨buf, .discussion db :: rest⟩) (hg : buf.Grows buf') (hb : db'.toBuilder = db.toBuilder)
    (hsizes : SizesMatch db.toBuilder buf') (hready : CommentReady db' buf') :
    Valid layout ⟨buf', .discussion db' :: rest⟩ :=
  ⟨hv.linked.of_toBuilder_eq hb, head_sizes (show SizesMatch db'.toBuilder buf' from hb ▸ hsizes),
    List.forall_mem_cons.2 ⟨hready, fun c hc => (hv.ready c (List.mem_cons_of_mem _ hc)).grows hg⟩⟩

/-- The innermost builder's destructor, when it returns normally. -/
theorem Valid.pop {b : OpenBuilder} {rest : List OpenBuilder} {buf buf' : Buffer} (hv : Valid layout ⟨buf, b :: rest⟩)
    (hd : b.destroy a buf = (.ok (), buf')) : Valid layout ⟨buf', rest⟩ := by
  have hg := OpenBuilder.grows_destroy a b buf
  rw [hd] at hg
  refine ⟨hv.linked.tail, ?_, fun c hc => (hv.ready c (List.mem_cons_of_mem _ hc)).grows hg⟩
  rcases rest with _ | ⟨c, rest⟩
  · intro c hc; cases hc
  · exact head_sizes (hv.head.destroy hv.linked.1 hd)

/-- Every call but the constructor of an object or changeset builder on an open builder keeps a
session valid. -/
theorem Valid.step {s s' : Session} {op : Op} (hv : s.Valid layout) (hop : op.opensObject → s.stack = [])
    (hs : s.step layout a op = some s') : s'.Valid layout := by
  obtain ⟨buf, stack⟩ := s
  cases op with
  | newObject type =>
    obtain rfl : stack = [] := hop rfl
    cases hs
    have hmade := @sizesMatch_makeWithUserSlot layout a buf type OSMObjectBuilder.minSizeForUser (layout.sizeOf type)
      (layout.itemHeaderSize_le type) (Nat.add_le_add_left (by decide) _)
    exact hv.push (grows_makeWithUserSlot layout a _ _ _ _) rfl hmade.1 ((Nat.add_assoc _ _ _).trans_le hmade.2.ge)
  | newChangeset =>
    obtain rfl : stack = [] := hop rfl
    cases hs
    have hmade := @sizesMatch_makeWithUserSlot layout a buf .changeset ChangesetBuilder.minSizeForUser
      layout.changesetUserSizeOffset layout.itemHeaderSize_le_changesetUserSizeOffset
      (layout.changesetUserSizeOffset_add_le.trans (Nat.le_add_right _ _))
    exact hv.push (grows_makeWithUserSlot layout a _ _ _ _) rfl hmade.1 ((Nat.add_assoc _ _ _).trans_le hmade.2.ge)
  | newTagList => cases hs; exact hv.push_make .tagList rfl trivial
  | newNodeRefList type => cases hs; exact hv.push_make type rfl trivial
  | newMemberList => cases hs; exact hv.push_make .relationMemberList rfl trivial
  | newDiscussion => cases hs; exact hv.push_make .changesetDiscussion rfl fun _ h => (nomatch h)
  | setUser user length =>
    rcases stack with _ | ⟨_ | _ | _ | _ | _ | _, rest⟩ <;> simp only [Session.step, reduceCtorEq] at hs
    · exact hv.after (grows_setUserWith a _ _ _ _ _ _ _) (head_sizes (hv.head.objectSetUser layout a hv.ready_head _ _).1) hs
    · exact hv.after (grows_setUserWith a _ _ _ _ _ _ _) (head_sizes (hv.head.changesetSetUser layout a hv.ready_head _ _).1) hs
  | addTag c =>
    rcases stack with _ | ⟨_ | _ | tb | _ | _ | _, rest⟩ <;> simp only [Session.step, reduceCtorEq] at hs
    exact hv.after (grows_runAddTagCall a c) (head_sizes (hv.head.runAddTagCall a c)) hs
  | addNodeRef r =>
    rcases stack with _ | ⟨_ | _ | _ | nb | _ | _, rest⟩ <;> simp only [Session.step, reduceCtorEq] at hs
    cases hs
    exact hv.keep (grows_foldl_addNodeRef a nb [r]) (head_sizes (hv.head.addNodeRef a r))
  | addMember type ref role fullMember =>
    rcases stack with _ | ⟨_ | _ | _ | _ | rb | _, rest⟩ <;> simp only [Session.step, reduceCtorEq] at hs
    exact hv.after (grows_addMember a rb type ref role fullMember)
      (head_sizes (hv.head.addMember a type ref role fullMember)) hs
  | addComment date uid user =>
    rcases stack with _ | ⟨_ | _ | _ | _ | _ | db, rest⟩ <;> simp only [Session.step, reduceCtorEq] at hs
    split at hs
    · next db' buf' heq =>
      cases hs
      have hc := hv.head.addComment a hv.ready_head date uid user
      have hb := @addComment_toBuilder a db buf date uid user
      have hg := @grows_addComment a buf db date uid user
      rw [heq] at hc hb hg
      exact hv.replace hg hb hc.1 hc.2
    · cases hs
  | addCommentText text =>
    rcases stack with _ | ⟨_ | _ | _ | _ | _ | db, rest⟩ <;> simp only [Session.step, reduceCtorEq] at hs
    split at hs
    · next db' buf' heq =>
      cases hs
      have hc := hv.head.addCommentTextWith a hv.ready_head text
      have hb := @addCommentTextWith_toBuilder a db buf text
      have hr := @commentReady_addCommentTextWith a db buf text buf'
      have hg := @grows_addCommentTextWith a buf db text
      rw [heq] at hc hb hr hg
      exact hv.replace hg hb hc hr
    · cases hs
  | addTags tags =>
    rcases stack with _ | ⟨ob | _ | _ | _ | _ | _, rest⟩ <;> simp only [Session.step, reduceCtorEq] at hs
    exact hv.after (grows_addTags layout a ob tags) (head_sizes (hv.head.addTags layout a tags)) hs
  | addNodeRefs nodes =>
    rcases stack with _ | ⟨ob | _ | _ | _ | _ | _, rest⟩ <;> simp only [Session.step, reduceCtorEq] at hs
    split at hs
    · cases hs
      exact hv.keep (grows_addNodeRefs layout a ob nodes) (head_sizes (hv.head.addNodeRefs layout a nodes))
    · cases hs
  | close =>
    rcases stack with _ | ⟨b, rest⟩ <;> simp only [Session.step, reduceCtorEq] at hs
    split at hs
    · next buf' heq => cases hs; exact hv.pop heq
    · cases hs

variable (layout a)

/-- One call of a session that is not the constructor of an object or changeset builder on an open
builder. -/
def NestedStep (s s' : Session) : Prop :=
  ∃ op : Op, (op.opensObject → s.stack = []) ∧ s.step layout a op = some s'

theorem valid_of_reaches {s s' : Session} (hv : s.Valid layout)
    (hrun : Relation.ReflTransGen (NestedStep layout a) s s') : s'.Valid layout := by
  induction hrun with
  | refl => exact hv
  | tail _ hstep ih =>
    obtain ⟨op, hop, hs⟩ := hstep
    exact ih.step hop hs

/-- Along every session on a buffer that constructs object and changeset builders only at the top
level, each open builder's `size()` counts every byte from the start of its item to the end of the
written part, in the 32 bits of `item_size_type`. -/
theorem size_eq_of_reaches {buf : Buffer} {s : Session}
    (hrun : Relation.ReflTransGen (NestedStep layout a) ⟨buf, []⟩ s) :
    ∀ b ∈ s.stack, b.toBuilder.size s.buf = (s.buf.data.length - b.toBuilder.itemOffset) % 2 ^ 32 := by
  have hv := valid_of_reaches layout a (valid_nil layout buf) hrun
  obtain ⟨buf', _ | ⟨c, rest⟩⟩ := s
  · intro b hb; cases hb
  · intro b hb
    exact hv.head.sizes _ (hv.linked.mem_chain b hb)

/-- A way with a name and a tag list holding `highway=primary`, on an empty buffer: the way builder
and the tag list builder are open. -/
theorem size_eq_of_reaches_way_tags :
    ∃ s, Relation.ReflTransGen (NestedStep Layout.amd64 Allocator.sample) ⟨⟨[], 64, 0⟩, []⟩ s ∧
      s.stack.length = 2 ∧ s.buf.data.length = 72 ∧
      ∀ b ∈ s.stack, b.toBuilder.size s.buf = (s.buf.data.length - b.toBuilder.itemOffset) % 2 ^ 32 := by
  have hrun : Relation.ReflTransGen (NestedStep Layout.amd64 Allocator.sample) ⟨⟨[], 64, 0⟩, []⟩ _ :=
    (((Relation.ReflTransGen.single ⟨.newObject .way, fun _ => rfl, rfl⟩).tail
      ⟨.setUser mapperName mapperName.length, fun h => (nomatch h), rfl⟩).tail
      ⟨.newTagList, fun h => (nomatch h), rfl⟩).tail ⟨.addTag highwayPrimary, fun h => (nomatch h), rfl⟩
  exact ⟨_, hrun, rfl, by decide, size_eq_of_reaches _ _ hrun⟩

end Session

end Osmium
