import Osmium.Builder.Alignment
import Mathlib.Data.List.Infix

/-!
# What a call writes

A builder writes into its own item, into the size fields of the items that contain it, through the
pointers it took into its item, and after the end of the written part; nowhere else. This module
states that footprint for every builder call and for every call of a session. A relocation changes
none of it: it copies the written part to the new storage, and a store through a pointer taken
before it reaches the released storage only.

The module introduces:

* `Buffer.KeepsOn P buf buf'` — `buf'` is at least as long as `buf` and holds `buf`'s byte at every
  position `P` admits.
* `Builder.SparesSizes b P` — no position `P` admits is in the size field of an item of `b`'s chain.
* `Builder.Spares b P` — moreover, every position `P` admits lies before the end of `b`'s item
  header.
* `Session.Fixed s` — the positions before the end of the innermost open item's header and outside
  the open items' size fields, or the whole written part when no builder is open.
* `Session.OpenFrom k s` — the written part of `s` reaches `k`, and its open items start at or after
  `k`.

Each builder call keeps the positions its builder spares (`keepsOn_addMember`, `keepsOn_addTags`
and the others), so every call of a valid session keeps its fixed positions
(`Session.keepsOn_fixed_step`). What a call does to the open builders (`Session.stack_step`) keeps
them at or after the end of the written part before the session, so along every session that starts
with no builder open the bytes written before it stay a prefix of the buffer's bytes
(`Session.prefix_of_reaches`).
-/

namespace Osmium

open Memory

/-! ### Keeping bytes -/

/-- `buf'` is at least as long as `buf` and holds `buf`'s byte at every position `P` admits. -/
structure Memory.Buffer.KeepsOn (P : ℕ → Prop) (buf buf' : Buffer) : Prop where
  /-- Written bytes are never taken back. -/
  le_length : buf.data.length ≤ buf'.data.length
  /-- The bytes at the positions `P` admits are `buf`'s. -/
  getElem?_eq : ∀ i, P i → buf'.data[i]? = buf.data[i]?

/-- No position `P` admits is in the size field of an item of `b`'s chain. -/
def Builder.SparesSizes (b : Builder) (P : ℕ → Prop) : Prop :=
  ∀ o ∈ b.chain, ∀ i, P i → i < o ∨ o + 4 ≤ i

/-- Every position `P` admits lies before the end of `b`'s item header and outside the size fields of
its chain: no call of `b` writes there. -/
structure Builder.Spares (b : Builder) (P : ℕ → Prop) : Prop where
  /-- The positions lie before the end of the builder's item header. -/
  header : ∀ i, P i → i < b.itemOffset + itemHeaderSize
  /-- They are outside the size fields of the chain. -/
  sizes : b.SparesSizes P

theorem Builder.SparesSizes.parents {b : Builder} {P : ℕ → Prop} (hb : b.SparesSizes P) :
    ∀ o ∈ b.parentOffsets, ∀ i, P i → i < o ∨ o + 4 ≤ i :=
  fun o ho => hb o (List.mem_cons_of_mem _ ho)

namespace Memory.Buffer

variable {P : ℕ → Prop} {buf : Buffer}

theorem KeepsOn.refl (buf : Buffer) : buf.KeepsOn P buf := ⟨le_rfl, fun _ _ => rfl⟩

theorem KeepsOn.trans {buf₂ buf₃ : Buffer} (h₁ : buf.KeepsOn P buf₂) (h₂ : buf₂.KeepsOn P buf₃) : buf.KeepsOn P buf₃ :=
  ⟨h₁.le_length.trans h₂.le_length, fun i hi => (h₂.getElem?_eq i hi).trans (h₁.getElem?_eq i hi)⟩

/-- Written positions stay written. -/
theorem KeepsOn.written {buf' : Buffer} (h : buf.KeepsOn P buf') (hP : ∀ i, P i → i < buf.data.length) :
    ∀ i, P i → i < buf'.data.length :=
  fun i hi => (hP i hi).trans_le h.le_length

/-- Keeping every written byte is keeping the bytes as a prefix. -/
theorem KeepsOn.isPrefix {buf' : Buffer} (h : buf.KeepsOn (· < buf.data.length) buf') : buf.data <+: buf'.data := by
  rw [List.prefix_iff_eq_take]
  refine List.ext_getElem? fun i => ?_
  rw [List.getElem?_take]
  split
  · next hi => exact (h.getElem?_eq i hi).symm
  · next hi => exact List.getElem?_eq_none (by omega)

/-- A reservation appends, also when it relocates. -/
theorem keepsOn_reserveSpace (a : Allocator) (hP : ∀ i, P i → i < buf.data.length) (size : ℕ) :
    buf.KeepsOn P (buf.reserveSpace a size) :=
  ⟨by rw [reserveSpace_data, List.length_append]; omega,
    fun i hi => by rw [reserveSpace_data, List.getElem?_append_left (hP i hi)]⟩

/-- A write keeps the positions outside the range it covers. -/
theorem keepsOn_write (hP : ∀ i, P i → i < buf.data.length) (offset : ℕ) (bytes : List UInt8)
    (h : ∀ i, P i → i < offset ∨ offset + bytes.length ≤ i) : buf.KeepsOn P (buf.write offset bytes) :=
  ⟨le_length_writeBytes, fun i hi => getElem?_writeBytes_of_not_mem (hP i hi) (h i hi)⟩

/-- A store through a pointer past the positions `P` admits keeps them, and so does a store through a
stale pointer, which changes nothing. -/
theorem keepsOn_storeAt (hP : ∀ i, P i → i < buf.data.length) {p : Ptr}
    (hp : p.generation = buf.generation → ∀ i, P i → i < p.offset) (bytes : List UInt8) :
    buf.KeepsOn P (buf.storeAt p bytes) := by
  unfold storeAt
  split
  · next h => exact keepsOn_write hP _ bytes fun i hi => .inl (hp h i hi)
  · exact KeepsOn.refl buf

end Memory.Buffer

/-! ### What each call writes -/

section Calls

variable (a : Allocator) {P : ℕ → Prop} {buf : Buffer}

theorem keepsOn_addSizes {offsets : List ℕ} (h : ∀ o ∈ offsets, ∀ i, P i → i < o ∨ o + 4 ≤ i)
    (hP : ∀ i, P i → i < buf.data.length) (size : ℕ) : buf.KeepsOn P (addSizes offsets buf size) := by
  induction offsets generalizing buf with
  | nil => exact Buffer.KeepsOn.refl buf
  | cons o os ih =>
    have h₁ := Buffer.keepsOn_write hP o (encodeLE 4 (byteSize buf.data o + size))
      (by simpa only [length_encodeLE] using h o (List.mem_cons_self _ _))
    rw [addSizes_cons]
    exact h₁.trans (ih (fun o' ho' => h o' (List.mem_cons_of_mem _ ho')) (h₁.written hP))

theorem Builder.keepsOn_addSize {b : Builder} (hb : b.SparesSizes P) (hP : ∀ i, P i → i < buf.data.length)
    (size : ℕ) : buf.KeepsOn P (b.addSize buf size) :=
  keepsOn_addSizes hb hP size

/-- A write into the builder's own item, after its header. -/
theorem Builder.keepsOn_write {b : Builder} (hb : b.Spares P) (hP : ∀ i, P i → i < buf.data.length) {j : ℕ}
    (hj : itemHeaderSize ≤ j) (bytes : List UInt8) : buf.KeepsOn P (buf.write (b.itemOffset + j) bytes) :=
  Buffer.keepsOn_write hP _ bytes fun i hi => .inl ((hb.header i hi).trans_le (Nat.add_le_add_left hj _))

/-- A reservation and a copy into it. -/
theorem keepsOn_reserveSpace_write (hP : ∀ i, P i → i < buf.data.length) (size : ℕ) (bytes : List UInt8) :
    buf.KeepsOn P ((buf.reserveSpace a size).write buf.data.length bytes) :=
  have h₁ := Buffer.keepsOn_reserveSpace a hP size
  h₁.trans (Buffer.keepsOn_write (h₁.written hP) _ bytes fun i hi => .inl (hP i hi))

theorem Appends.keepsOn {f : Buffer → ℕ × Buffer} (hf : Appends f) (hP : ∀ i, P i → i < buf.data.length) :
    buf.KeepsOn P (f buf).2 := by
  obtain ⟨bytes, hdata, -⟩ := hf buf
  exact ⟨by rw [hdata, List.length_append]; omega, fun i hi => by rw [hdata, List.getElem?_append_left (hP i hi)]⟩

theorem Builder.keepsOn_addPadding {b : Builder} (hb : b.SparesSizes P) (hP : ∀ i, P i → i < buf.data.length)
    (self : Bool) : buf.KeepsOn P (b.addPadding a buf self) := by
  unfold Builder.addPadding
  dsimp only
  split
  · exact Buffer.KeepsOn.refl buf
  · have h₁ := keepsOn_reserveSpace_write a hP (alignBytes - b.size buf % alignBytes)
      (List.replicate (alignBytes - b.size buf % alignBytes) 0)
    split
    · exact h₁.trans (Builder.keepsOn_addSize hb (h₁.written hP) _)
    · exact h₁.trans (keepsOn_addSizes hb.parents (h₁.written hP) _)

theorem Builder.keepsOn_addItem {b : Builder} (hb : b.SparesSizes P) (hP : ∀ i, P i → i < buf.data.length)
    (item : List UInt8) : buf.KeepsOn P (b.addItem a buf item) :=
  have h₁ := keepsOn_reserveSpace_write a hP (paddedLength (byteSize item 0)) (item.take (paddedLength (byteSize item 0)))
  h₁.trans (Builder.keepsOn_addSize hb (h₁.written hP) _)

/-- A new builder's item starts at the end of the written part, after every position `P` admits. -/
theorem spares_make (parent : Option Builder) (hparent : ∀ p ∈ parent, p.SparesSizes P)
    (hP : ∀ i, P i → i < buf.data.length) (size : ℕ) : (Builder.make a buf parent size).1.Spares P := by
  refine ⟨fun i hi => (hP i hi).trans_le (Nat.le_add_right _ _), fun o ho => ?_⟩
  rw [make_fst, Builder.chain, List.mem_cons] at ho
  rcases ho with rfl | ho
  · exact fun i hi => .inl (hP i hi)
  · cases parent with
    | none => cases ho
    | some p => exact hparent p rfl o ho

/-- A builder's constructor: the reservation, `add_size` on the parent, and the new item's fixed
part. -/
theorem keepsOn_make_write (parent : Option Builder) (hparent : ∀ p ∈ parent, p.SparesSizes P)
    (hP : ∀ i, P i → i < buf.data.length) (size : ℕ) (image : List UInt8) :
    buf.KeepsOn P ((Builder.make a buf parent size).2.write buf.data.length image) := by
  have hb := spares_make a parent hparent hP size
  have h₁ := Buffer.keepsOn_reserveSpace a hP size
  have h₂ := h₁.trans (keepsOn_addSizes hb.sizes.parents (h₁.written hP) size)
  exact h₂.trans (Buffer.keepsOn_write (h₂.written hP) _ image fun i hi => .inl (hP i hi))

theorem keepsOn_runAddTagCall {tb : TagListBuilder} (hb : tb.SparesSizes P) (hP : ∀ i, P i → i < buf.data.length)
    (c : AddTagCall) : buf.KeepsOn P (c.run a tb buf).2 := by
  have hwith : ∀ {check : Except Failure Unit} {appendKey appendValue : Buffer → ℕ × Buffer}, Appends appendKey →
      Appends appendValue → buf.KeepsOn P (TagListBuilder.addTagWith check appendKey appendValue tb buf).2 := by
    intro check appendKey appendValue hK hV
    unfold TagListBuilder.addTagWith
    split
    · exact Buffer.KeepsOn.refl buf
    · have h₁ := hK.keepsOn hP
      have h₂ := h₁.trans (Builder.keepsOn_addSize hb (h₁.written hP) (appendKey buf).1)
      have h₃ := h₂.trans (hV.keepsOn (h₂.written hP))
      exact h₃.trans (Builder.keepsOn_addSize hb (h₃.written hP) _)
  cases c with
  | withLength key value =>
    unfold AddTagCall.run TagListBuilder.addTagWithLength
    exact hwith (appends_appendWithZero a key) (appends_appendWithZero a value)
  | _ =>
    unfold AddTagCall.run TagListBuilder.addTag TagListBuilder.addTagString TagListBuilder.addTagFromTag
    exact hwith (appends_append a _) (appends_append a _)

theorem keepsOn_runAddTags {tb : TagListBuilder} (hb : tb.SparesSizes P) (hP : ∀ i, P i → i < buf.data.length)
    (calls : List AddTagCall) : buf.KeepsOn P (runAddTags a tb buf calls).2 := by
  induction calls generalizing buf with
  | nil => exact Buffer.KeepsOn.refl buf
  | cons c cs ih =>
    have hc := keepsOn_runAddTagCall a hb hP c
    unfold runAddTags
    split
    · next buf' heq => rw [heq] at hc; exact hc.trans (ih (hc.written hP))
    · next e buf' heq => rw [heq] at hc; exact hc

theorem keepsOn_foldl_addNodeRef {nb : NodeRefListBuilder} (hb : nb.SparesSizes P)
    (hP : ∀ i, P i → i < buf.data.length) (nodes : List NodeRef) : buf.KeepsOn P (nodes.foldl (nb.addNodeRef a) buf) := by
  induction nodes generalizing buf with
  | nil => exact Buffer.KeepsOn.refl buf
  | cons r rs ih =>
    have h₁ := keepsOn_reserveSpace_write a hP nodeRefSize r.bytes
    have h₂ := h₁.trans (Builder.keepsOn_addSize hb (h₁.written hP) nodeRefSize)
    exact h₂.trans (ih (h₂.written hP))

/-- `add_role` stores `role_size` through the member pointer, which is past the positions `P` admits
while it reaches the buffer. -/
theorem keepsOn_addRole {rb : RelationMemberListBuilder} (hb : rb.SparesSizes P) (hP : ∀ i, P i → i < buf.data.length)
    (member : Ptr) (hmember : member.generation = buf.generation → ∀ i, P i → i < member.offset)
    (role : List UInt8) : buf.KeepsOn P (rb.addRole a buf member role).2 := by
  unfold RelationMemberListBuilder.addRole
  split_ifs
  · exact Buffer.KeepsOn.refl buf
  · have h₁ := Buffer.keepsOn_storeAt hP (p := member.field roleSizeOffset)
      (fun h i hi => (hmember h i hi).trans_le (Nat.le_add_right _ _)) (encodeLE 2 (role.length % 2 ^ 16 + 1))
    have h₂ := h₁.trans ((appends_appendWithZero a role).keepsOn (h₁.written hP))
    have h₃ := h₂.trans (Builder.keepsOn_addSize hb (h₂.written hP) (role.length + 1))
    exact h₃.trans (Builder.keepsOn_addPadding a hb (h₃.written hP) true)

theorem keepsOn_addMember {rb : RelationMemberListBuilder} (hb : rb.SparesSizes P)
    (hP : ∀ i, P i → i < buf.data.length) (type : ItemType) (ref : ℤ) (role : List UInt8)
    (fullMember : Option (List UInt8)) : buf.KeepsOn P (rb.addMember a buf type ref role fullMember).2 := by
  unfold RelationMemberListBuilder.addMember
  dsimp only
  have h₁ := Buffer.keepsOn_reserveSpace a hP relationMemberSize
  have h₂ := h₁.trans (Buffer.keepsOn_storeAt (h₁.written hP) (p := (buf.reserveSpace a relationMemberSize).ptr
    buf.data.length) (fun _ => hP) (relationMemberImage ref type fullMember.isSome))
  have h₃ := h₂.trans (Builder.keepsOn_addSize hb (h₂.written hP) relationMemberSize)
  have h₄ := h₃.trans (keepsOn_addRole a hb (h₃.written hP) ((buf.reserveSpace a relationMemberSize).ptr
    buf.data.length) (fun _ => hP) role)
  split
  · next e buf₃ heq => rw [heq] at h₄; exact h₄
  · next buf₃ heq =>
    rw [heq] at h₄
    cases fullMember with
    | none => exact h₄
    | some item => exact h₄.trans (Builder.keepsOn_addItem a hb (h₄.written hP) item)

/-- `add_user` stores `user_size` through the comment pointer, which is past the positions `P` admits
while it reaches the buffer. -/
theorem keepsOn_addUser (db : ChangesetDiscussionBuilder) (hb : db.SparesSizes P) (hP : ∀ i, P i → i < buf.data.length)
    {comment : Ptr} (hc : comment.generation = buf.generation → ∀ i, P i → i < comment.offset) (user : List UInt8) :
    buf.KeepsOn P (db.addUser a buf comment user).2 := by
  unfold ChangesetDiscussionBuilder.addUser
  split_ifs
  · exact Buffer.KeepsOn.refl buf
  · have h₁ := Buffer.keepsOn_storeAt hP (p := comment.field commentUserSizeOffset)
      (fun h i hi => (hc h i hi).trans_le (Nat.le_add_right _ _)) (encodeLE 2 (user.length % 2 ^ 16 + 1))
    have h₂ := h₁.trans ((appends_appendWithZero a user).keepsOn (h₁.written hP))
    exact h₂.trans (Builder.keepsOn_addSize hb (h₂.written hP) _)

/-- `add_text` stores `text_size` through the comment pointer, which is past the positions `P` admits
while it reaches the buffer. -/
theorem keepsOn_addText (db : ChangesetDiscussionBuilder) (hb : db.SparesSizes P) (hP : ∀ i, P i → i < buf.data.length)
    {comment : Ptr} (hc : comment.generation = buf.generation → ∀ i, P i → i < comment.offset) (text : List UInt8) :
    buf.KeepsOn P (db.addText a buf comment text).2 := by
  unfold ChangesetDiscussionBuilder.addText
  split_ifs
  · exact Buffer.KeepsOn.refl buf
  · have h₁ := Buffer.keepsOn_storeAt hP (p := comment.field textSizeOffset)
      (fun h i hi => (hc h i hi).trans_le (Nat.le_add_right _ _)) (encodeLE 4 (text.length % 2 ^ 32 + 1))
    have h₂ := h₁.trans ((appends_appendWithZero a text).keepsOn (h₁.written hP))
    have h₃ := h₂.trans (Builder.keepsOn_addSize hb (h₂.written hP) (text.length + 1))
    exact h₃.trans (Builder.keepsOn_addPadding a hb (h₃.written hP) true)

theorem keepsOn_addComment {db : ChangesetDiscussionBuilder} (hb : db.SparesSizes P)
    (hP : ∀ i, P i → i < buf.data.length) (date uid : ℕ) (user : CString) :
    buf.KeepsOn P (db.addComment a buf date uid user).2.2 := by
  unfold ChangesetDiscussionBuilder.addComment
  split_ifs
  · exact Buffer.KeepsOn.refl buf
  · dsimp only
    have h₁ := Buffer.keepsOn_reserveSpace a hP changesetCommentSize
    have h₂ := h₁.trans (Buffer.keepsOn_storeAt (h₁.written hP) (p := (buf.reserveSpace a changesetCommentSize).ptr
      buf.data.length) (fun _ => hP) (changesetCommentImage date uid))
    have h₃ := h₂.trans (Builder.keepsOn_addSize hb (h₂.written hP) changesetCommentSize)
    exact h₃.trans (keepsOn_addUser a _ hb (h₃.written hP) (fun _ => hP) user.bytes)

theorem keepsOn_addCommentTextWith {db : ChangesetDiscussionBuilder} (hb : db.SparesSizes P)
    (hP : ∀ i, P i → i < buf.data.length)
    (hready : ∀ p ∈ db.comment, p.generation = buf.generation → ∀ i, P i → i < p.offset) (text : List UInt8) :
    buf.KeepsOn P (db.addCommentTextWith a buf text).2.2 := by
  unfold ChangesetDiscussionBuilder.addCommentTextWith
  split
  · exact Buffer.KeepsOn.refl buf
  · next comment hcomment => exact keepsOn_addText a _ hb hP (hready comment hcomment) text

variable (layout : Layout)

/-- `set_user` writes the name and `user_size` into the builder's own item, after reserving and
counting more room when the slot is too small. -/
theorem keepsOn_setUserWith {b : Builder} (hb : b.Spares P) (hP : ∀ i, P i → i < buf.data.length)
    {nameOffset userSizeOffset : ℕ} (hN : itemHeaderSize ≤ nameOffset) (hU : itemHeaderSize ≤ userSizeOffset)
    (sizeBound availableSpace : ℕ) (user : List UInt8) (length : ℕ) :
    buf.KeepsOn P (setUserWith a nameOffset userSizeOffset sizeBound availableSpace b buf user length).2 := by
  unfold setUserWith
  split_ifs with hcheck hA
  · have h₁ := keepsOn_reserveSpace_write a hP (paddedLength (length - availableSpace))
      (List.replicate (paddedLength (length - availableSpace)) 0)
    have h₂ := h₁.trans (Builder.keepsOn_addSize hb.sizes (h₁.written hP) (paddedLength (length - availableSpace)))
    have h₃ := h₂.trans (Builder.keepsOn_write hb (h₂.written hP) hN (user.take length))
    exact h₃.trans (Builder.keepsOn_write hb (h₃.written hP) hU _)
  · have h₃ := Builder.keepsOn_write hb hP hN (user.take length)
    exact h₃.trans (Builder.keepsOn_write hb (h₃.written hP) hU _)
  · exact Buffer.KeepsOn.refl buf

theorem keepsOn_makeWithUserSlot (parent : Option Builder) (hparent : ∀ p ∈ parent, p.SparesSizes P)
    (hP : ∀ i, P i → i < buf.data.length) (type : ItemType) (minSizeForUser userSizeOffset : ℕ) :
    buf.KeepsOn P (makeWithUserSlot layout a type minSizeForUser userSizeOffset buf parent).2 := by
  have hb := spares_make a parent hparent hP (layout.sizeOf type + minSizeForUser)
  have h₁ := keepsOn_make_write a parent hparent hP (layout.sizeOf type + minSizeForUser) (layout.image type)
  have h₂ := h₁.trans (Builder.keepsOn_addSize hb.sizes (h₁.written hP) minSizeForUser)
  -- the slot and `user_size` lie in the new item, after the written part
  have hafter : ∀ j, ∀ i, P i → i < buf.data.length + j := fun j i hi => (hP i hi).trans_le (Nat.le_add_right _ _)
  have h₃ := h₂.trans (Buffer.keepsOn_write (h₂.written hP) (buf.data.length + layout.sizeOf type)
    (List.replicate minSizeForUser 0) fun i hi => .inl (hafter _ i hi))
  exact h₃.trans (Buffer.keepsOn_write (h₃.written hP) (buf.data.length + userSizeOffset) (encodeLE 2 1)
    fun i hi => .inl (hafter _ i hi))

/-- `add_tags` constructs, fills and destroys a tag list after the written part: it spares what the
object builder's size fields spare. -/
theorem keepsOn_addTags {ob : OSMObjectBuilder} (hb : ob.SparesSizes P) (hP : ∀ i, P i → i < buf.data.length)
    (tags : List (CString × CString)) : buf.KeepsOn P (ob.addTags layout a buf tags).2 := by
  have hparent : ∀ p ∈ some ob.toBuilder, p.SparesSizes P := fun p hp => by cases hp; exact hb
  have htb := spares_make a _ hparent hP (layout.sizeOf .tagList)
  have h₁ := keepsOn_make_write a _ hparent hP (layout.sizeOf .tagList) (layout.image .tagList)
  have h₂ := h₁.trans (keepsOn_runAddTags a (show (⟨_⟩ : TagListBuilder).SparesSizes P from htb.sizes)
    (h₁.written hP) (tags.map fun p => .cStrings p.1 p.2))
  exact h₂.trans (Builder.keepsOn_addPadding a htb.sizes (h₂.written hP) false)

/-- `add_node_refs` constructs, fills and destroys a way node list after the written part. -/
theorem keepsOn_addNodeRefs {ob : OSMObjectBuilder} (hb : ob.SparesSizes P) (hP : ∀ i, P i → i < buf.data.length)
    (nodes : List NodeRef) : buf.KeepsOn P (ob.addNodeRefs layout a buf nodes) := by
  have hparent : ∀ p ∈ some ob.toBuilder, p.SparesSizes P := fun p hp => by cases hp; exact hb
  have hnb := spares_make a _ hparent hP (layout.sizeOf .wayNodeList)
  have h₁ := keepsOn_make_write a _ hparent hP (layout.sizeOf .wayNodeList) (layout.image .wayNodeList)
  have h₂ := h₁.trans (keepsOn_foldl_addNodeRef a
    (show (⟨_, .wayNodeList⟩ : NodeRefListBuilder).SparesSizes P from hnb.sizes) (h₁.written hP) nodes)
  exact h₂.trans (Builder.keepsOn_addPadding a hnb.sizes (h₂.written hP) false)

theorem OpenBuilder.keepsOn_destroy (b : OpenBuilder) (hb : b.toBuilder.SparesSizes P)
    (hP : ∀ i, P i → i < buf.data.length) : buf.KeepsOn P (b.destroy a buf).2 := by
  cases b with
  | object _ | changeset _ => exact Buffer.KeepsOn.refl buf
  | tagList _ | nodeRefList _ | memberList _ => exact Builder.keepsOn_addPadding a hb hP false
  | discussion db =>
    dsimp only [OpenBuilder.destroy, ChangesetDiscussionBuilder.destroy]
    split_ifs
    · exact Builder.keepsOn_addPadding a hb hP false
    · exact Buffer.KeepsOn.refl buf

end Calls

/-! ### Sessions -/

namespace Session

variable {layout : Layout} {a : Allocator}

theorem buf_of_after {s s' : Session} {r : Except Failure Unit × Buffer} (hs : s.after r = some s') :
    s'.buf = r.2 := by
  unfold Session.after at hs
  split at hs
  · cases hs; rfl
  · cases hs

theorem stack_of_after {s s' : Session} {r : Except Failure Unit × Buffer} (hs : s.after r = some s') :
    s'.stack = s.stack := by
  unfold Session.after at hs
  split at hs
  · cases hs; rfl
  · cases hs

/-- A call that leaves the open builders, when it returns normally. -/
theorem eq_of_after {s s' : Session} {r : Except Failure Unit × Buffer} (hs : s.after r = some s') :
    r.1 = .ok () ∧ s' = ⟨r.2, s.stack⟩ := by
  unfold Session.after at hs
  split at hs
  · next h => cases hs; exact ⟨h, rfl⟩
  · cases hs

/-- Every call of a valid session keeps the positions the innermost builder spares: those before its
item and outside the size fields of the open items. -/
theorem keepsOn_step {P : ℕ → Prop} {s s' : Session} {op : Op} (hv : s.Valid layout)
    (hP : ∀ i, P i → i < s.buf.data.length) (hhead : ∀ b ∈ s.stack.head?, b.toBuilder.Spares P)
    (hs : s.step layout a op = some s') : s.buf.KeepsOn P s'.buf := by
  obtain ⟨buf, stack⟩ := s
  have hparent : ∀ p ∈ Session.parent ⟨buf, stack⟩, p.SparesSizes P := fun p hp => by
    obtain ⟨b, hb, rfl⟩ := Option.mem_map.1 hp
    exact (hhead b hb).sizes
  cases op with
  | newObject type => cases hs; exact keepsOn_makeWithUserSlot a layout _ hparent hP type _ _
  | newChangeset => cases hs; exact keepsOn_makeWithUserSlot a layout _ hparent hP .changeset _ _
  | newTagList | newNodeRefList _ | newMemberList | newDiscussion => cases hs; exact keepsOn_make_write a _ hparent hP _ _
  | setUser user length =>
    rcases stack with _ | ⟨_ | _ | _ | _ | _ | _, rest⟩ <;> simp only [Session.step, reduceCtorEq] at hs <;>
      rw [buf_of_after hs]
    · exact keepsOn_setUserWith a (hhead _ rfl) hP ((layout.itemHeaderSize_le _).trans (Nat.le_add_right _ 2))
        (layout.itemHeaderSize_le _) _ _ user length
    · exact keepsOn_setUserWith a (hhead _ rfl) hP (layout.itemHeaderSize_le _)
        layout.itemHeaderSize_le_changesetUserSizeOffset _ _ user length
  | addTag c =>
    rcases stack with _ | ⟨_ | _ | tb | _ | _ | _, rest⟩ <;> simp only [Session.step, reduceCtorEq] at hs
    rw [buf_of_after hs]
    exact keepsOn_runAddTagCall a (hhead _ rfl).sizes hP c
  | addNodeRef r =>
    rcases stack with _ | ⟨_ | _ | _ | nb | _ | _, rest⟩ <;> simp only [Session.step, reduceCtorEq] at hs
    cases hs
    exact keepsOn_foldl_addNodeRef a (hhead _ rfl).sizes hP [r]
  | addMember type ref role fullMember =>
    rcases stack with _ | ⟨_ | _ | _ | _ | rb | _, rest⟩ <;> simp only [Session.step, reduceCtorEq] at hs
    rw [buf_of_after hs]
    exact keepsOn_addMember a (hhead _ rfl).sizes hP type ref role fullMember
  | addComment date uid user =>
    rcases stack with _ | ⟨_ | _ | _ | _ | _ | db, rest⟩ <;> simp only [Session.step, reduceCtorEq] at hs
    split at hs
    · next db' buf' heq =>
      cases hs
      have hkeep := keepsOn_addComment a (hhead _ rfl).sizes hP date uid user
      rw [heq] at hkeep
      exact hkeep
    · cases hs
  | addCommentText text =>
    rcases stack with _ | ⟨_ | _ | _ | _ | _ | db, rest⟩ <;> simp only [Session.step, reduceCtorEq] at hs
    split at hs
    · next db' buf' heq =>
      cases hs
      -- the pending comment lies in the discussion's item, past every position spared
      have hready : ∀ p ∈ db.comment, p.generation = buf.generation → ∀ i, P i → i < p.offset :=
        fun p hp hgen i hi => by
          have := ((hv.ready_head p hp).2 hgen).1
          have : i < db.itemOffset + itemHeaderSize := (hhead _ rfl).header i hi
          omega
      have hkeep := keepsOn_addCommentTextWith a (hhead _ rfl).sizes hP hready text
      rw [heq] at hkeep
      exact hkeep
    · cases hs
  | addTags tags =>
    rcases stack with _ | ⟨ob | _ | _ | _ | _ | _, rest⟩ <;> simp only [Session.step, reduceCtorEq] at hs
    rw [buf_of_after hs]
    exact keepsOn_addTags a layout (hhead _ rfl).sizes hP tags
  | addNodeRefs nodes =>
    rcases stack with _ | ⟨ob | _ | _ | _ | _ | _, rest⟩ <;> simp only [Session.step, reduceCtorEq] at hs
    split at hs
    · cases hs
      exact keepsOn_addNodeRefs a layout (hhead _ rfl).sizes hP nodes
    · cases hs
  | close =>
    rcases stack with _ | ⟨b, rest⟩ <;> simp only [Session.step, reduceCtorEq] at hs
    split at hs
    · next buf' heq =>
      cases hs
      have hkeep := OpenBuilder.keepsOn_destroy a b (hhead _ rfl).sizes hP
      rw [heq] at hkeep
      exact hkeep
    · cases hs

/-- No call takes written bytes back. -/
theorem length_le_step {s s' : Session} {op : Op} (hv : s.Valid layout) (hs : s.step layout a op = some s') :
    s.buf.data.length ≤ s'.buf.data.length :=
  (keepsOn_step (P := fun _ => False) hv (fun _ h => h.elim) (fun _ _ => ⟨fun _ h => h.elim, fun _ _ _ h => h.elim⟩)
    hs).le_length

/-- The positions no call of `s` changes: before the end of the innermost open item's header and
outside the size fields of the open items, or, with no builder open, the whole written part. -/
def Fixed (s : Session) (i : ℕ) : Prop :=
  match s.stack with
  | [] => i < s.buf.data.length
  | b :: _ => i < b.toBuilder.itemOffset + itemHeaderSize ∧ ∀ o ∈ b.toBuilder.chain, i < o ∨ o + 4 ≤ i

/-- Every call of a valid session that returns normally changes no written byte but the innermost
open item's after its header, those after the written part and the size fields of the open items:
finished items, and the headers of the open ones but for their sizes, stay as they are,
relocations included. -/
theorem keepsOn_fixed_step {s s' : Session} {op : Op} (hv : s.Valid layout) (hs : s.step layout a op = some s') :
    s.buf.KeepsOn s.Fixed s'.buf := by
  obtain ⟨buf, _ | ⟨b, rest⟩⟩ := s
  · exact keepsOn_step hv (fun _ hi => hi) (fun _ h => nomatch h) hs
  · have hin := hv.head.inside
    refine keepsOn_step hv (fun i hi => show i < buf.data.length by have := hi.1; unfold itemHeaderSize at *; omega)
      (fun c hc => ?_) hs
    rw [List.head?_cons, Option.mem_def, Option.some_inj] at hc
    exact hc ▸ ⟨fun i hi => hi.1, fun o ho i hi => hi.2 o ho⟩

/-- `add_tag` on a tag list constructed on a full buffer of eight bytes: the key's copy relocates the
storage, and the eight bytes and the tag list's header but for its size are kept. -/
theorem keepsOn_fixed_step_addTag :
    ∃ s₁ s₂, Session.step Layout.amd64 Allocator.sample ⟨⟨[1, 2, 3, 4, 5, 6, 7, 8], 8, 0⟩, []⟩ .newTagList = some s₁ ∧
      s₁.Valid Layout.amd64 ∧ Session.step Layout.amd64 Allocator.sample s₁ (.addTag highwayPrimary) = some s₂ ∧
      s₂.buf.generation = 2 ∧ s₁.buf.KeepsOn s₁.Fixed s₂.buf := by
  have hv := valid_of_reaches Layout.amd64 Allocator.sample (valid_nil _ ⟨[1, 2, 3, 4, 5, 6, 7, 8], 8, 0⟩)
    (.single ⟨.newTagList, fun h => (nomatch h), rfl⟩)
  exact ⟨_, _, rfl, hv, rfl, rfl, @keepsOn_fixed_step _ Allocator.sample _ _ (.addTag highwayPrimary) hv rfl⟩

/-- What a call does to the open builders: a constructor pushes a builder whose item starts at the
end of the written part, on the innermost open builder or at the top level; `add_comment` and
`add_comment_text` replace the innermost changeset discussion builder by one with the same item; the
innermost builder's destructor, returning normally, pops it; every other call keeps them. -/
theorem stack_step {s s' : Session} {op : Op} (hs : s.step layout a op = some s') :
    (∃ b, s'.stack = b :: s.stack ∧ b.toBuilder.chain = s.buf.data.length :: (s.parent.map Builder.chain).getD [] ∧
        (op.opensObject ∨ op.opensDerived)) ∨
      s'.stack = s.stack ∨
      (∃ db db' rest, s.stack = .discussion db :: rest ∧ s'.stack = .discussion db' :: rest ∧
        db'.toBuilder = db.toBuilder) ∨
      ∃ b, s.stack = b :: s'.stack ∧ b.destroy a s.buf = (.ok (), s'.buf) := by
  obtain ⟨buf, stack⟩ := s
  cases op with
  | newObject _ | newChangeset | newTagList | newNodeRefList _ | newMemberList | newDiscussion =>
    cases hs; exact .inl ⟨_, rfl, rfl, by first | exact .inl rfl | exact .inr rfl⟩
  | close =>
    rcases stack with _ | ⟨b, rest⟩ <;> simp only [Session.step, reduceCtorEq] at hs
    split at hs
    · next buf' heq => cases hs; exact .inr (.inr (.inr ⟨b, rfl, heq⟩))
    · cases hs
  | addComment date uid user =>
    rcases stack with _ | ⟨_ | _ | _ | _ | _ | db, rest⟩ <;> simp only [Session.step, reduceCtorEq] at hs
    split at hs
    · next db' buf' heq =>
      cases hs
      have hb := @addComment_toBuilder a db buf date uid user
      rw [heq] at hb
      exact .inr (.inr (.inl ⟨db, _, rest, rfl, rfl, hb⟩))
    · cases hs
  | addCommentText text =>
    rcases stack with _ | ⟨_ | _ | _ | _ | _ | db, rest⟩ <;> simp only [Session.step, reduceCtorEq] at hs
    split at hs
    · next db' buf' heq =>
      cases hs
      have hb := @addCommentTextWith_toBuilder a db buf text
      rw [heq] at hb
      exact .inr (.inr (.inl ⟨db, _, rest, rfl, rfl, hb⟩))
    · cases hs
  | addNodeRef _ =>
    rcases stack with _ | ⟨_ | _ | _ | _ | _ | _, rest⟩ <;> simp only [Session.step, reduceCtorEq] at hs
    cases hs; exact .inr (.inl rfl)
  | addNodeRefs _ =>
    rcases stack with _ | ⟨_ | _ | _ | _ | _ | _, rest⟩ <;> simp only [Session.step, reduceCtorEq] at hs
    split at hs
    · cases hs; exact .inr (.inl rfl)
    · cases hs
  | setUser _ _ | addTag _ | addMember _ _ _ _ | addTags _ =>
    rcases stack with _ | ⟨_ | _ | _ | _ | _ | _, rest⟩ <;> simp only [Session.step, reduceCtorEq] at hs <;>
      exact .inr (.inl (stack_of_after hs))

/-- The written part of `s` reaches `k`, and its open items start at or after `k`. -/
structure OpenFrom (k : ℕ) (s : Session) : Prop where
  /-- The written part reaches `k`. -/
  le_length : k ≤ s.buf.data.length
  /-- The innermost builder's items, which are all the open items, start at or after `k`. -/
  chain : ∀ b ∈ s.stack.head?, ∀ o ∈ b.toBuilder.chain, k ≤ o

variable {k : ℕ}

/-- The innermost builder spares every position before `k`. -/
theorem OpenFrom.spares {s : Session} (hf : s.OpenFrom k) : ∀ b ∈ s.stack.head?, b.toBuilder.Spares (· < k) :=
  fun b hb => ⟨fun _ hi => (hi.trans_le (hf.chain b hb _ (List.mem_cons_self _ _))).trans_le (Nat.le_add_right _ _),
    fun o ho _ hi => .inl (hi.trans_le (hf.chain b hb o ho))⟩

/-- Every call keeps the open items at or after `k`: a new one starts at the end of the written part,
and a destroyed builder's parent's items are among its own. -/
theorem OpenFrom.step {s s' : Session} {op : Op} (hv : s.Valid layout) (hf : s.OpenFrom k)
    (hs : s.step layout a op = some s') (hlen : s.buf.data.length ≤ s'.buf.data.length) : s'.OpenFrom k := by
  refine ⟨hf.le_length.trans hlen, fun b' hb' o ho => ?_⟩
  rcases stack_step hs with ⟨b, hstack, hchain, -⟩ | hstack | ⟨db, db', rest, hstack, hstack', hb⟩ | ⟨b, hstack⟩
  · rw [hstack, List.head?_cons, Option.mem_def, Option.some_inj] at hb'
    rw [← hb', hchain] at ho
    rcases List.mem_cons.1 ho with rfl | ho
    · exact hf.le_length
    · obtain ⟨c, hc, hcb⟩ : ∃ c ∈ s.stack.head?, (s.parent.map Builder.chain).getD [] = c.toBuilder.chain := by
        rcases hhead : s.stack.head? with _ | c
        · simp only [Session.parent, hhead, Option.map_none', Option.getD_none] at ho; cases ho
        · exact ⟨c, rfl, by simp only [Session.parent, hhead, Option.map_some', Option.getD_some]⟩
      exact hf.chain c hc o (hcb ▸ ho)
  · rw [hstack] at hb'
    exact hf.chain b' hb' o ho
  · rw [hstack', List.head?_cons, Option.mem_def, Option.some_inj] at hb'
    rw [← hb'] at ho
    exact hf.chain (.discussion db) (by rw [hstack]; rfl) o (show o ∈ db.toBuilder.chain from hb ▸ ho)
  · have hlinked := hv.linked
    rw [hstack.1] at hlinked
    rcases hs' : s'.stack with _ | ⟨c, rest⟩
    · rw [hs'] at hb'; cases hb'
    · rw [hs', List.head?_cons, Option.mem_def, Option.some_inj] at hb'
      rw [hs'] at hlinked
      subst hb'
      exact hf.chain b (by rw [hstack.1]; rfl) o (by rw [Builder.chain, hlinked.1]; exact List.mem_cons_of_mem _ ho)

variable (layout a)

/-- Along every session that constructs object and changeset builders only at the top level, from a
valid state whose open items start at or after `k`, the first `k` bytes are kept. -/
theorem keepsOn_of_reaches {s s' : Session} (hv : s.Valid layout) (hf : s.OpenFrom k)
    (hrun : Relation.ReflTransGen (NestedStep layout a) s s') : s.buf.KeepsOn (· < k) s'.buf ∧ s'.OpenFrom k := by
  induction hrun with
  | refl => exact ⟨Buffer.KeepsOn.refl _, hf⟩
  | tail hrun' hstep ih =>
    obtain ⟨op, -, hs⟩ := hstep
    have hv' := valid_of_reaches layout a hv hrun'
    have h := keepsOn_step hv' (fun i hi => hi.trans_le ih.2.le_length) ih.2.spares hs
    exact ⟨ih.1.trans h, ih.2.step hv' hs h.le_length⟩

/-- Along every session on a buffer that starts with no builder open and constructs object and
changeset builders only at the top level, the bytes the buffer held when the session started stay
a prefix of its bytes: no call changes an item finished before, relocations included. -/
theorem prefix_of_reaches {buf : Buffer} {s : Session}
    (hrun : Relation.ReflTransGen (NestedStep layout a) ⟨buf, []⟩ s) : buf.data <+: s.buf.data :=
  (keepsOn_of_reaches layout a (valid_nil layout buf) ⟨le_rfl, fun _ h => nomatch h⟩ hrun).1.isPrefix

/-- A tag list holding `highway=primary` constructed, filled and destroyed on a full buffer of eight
bytes: the constructor and the key's copy each relocate the storage, and the eight bytes are kept. -/
theorem prefix_of_reaches_relocated :
    ∃ s, Relation.ReflTransGen (NestedStep Layout.amd64 Allocator.sample) ⟨⟨[1, 2, 3, 4, 5, 6, 7, 8], 8, 0⟩, []⟩ s ∧
      s.stack = [] ∧ s.buf.generation = 2 ∧ s.buf.data.length = 32 ∧
      (⟨[1, 2, 3, 4, 5, 6, 7, 8], 8, 0⟩ : Buffer).data <+: s.buf.data := by
  have hrun : Relation.ReflTransGen (NestedStep Layout.amd64 Allocator.sample)
      ⟨⟨[1, 2, 3, 4, 5, 6, 7, 8], 8, 0⟩, []⟩ _ :=
    ((Relation.ReflTransGen.single ⟨.newTagList, fun h => (nomatch h), rfl⟩).tail
      ⟨.addTag highwayPrimary, fun h => (nomatch h), rfl⟩).tail ⟨.close, fun h => (nomatch h), rfl⟩
  exact ⟨_, hrun, rfl, rfl, rfl, prefix_of_reaches _ _ hrun⟩

end Session

end Osmium
