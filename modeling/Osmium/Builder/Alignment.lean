import Osmium.Builder.Session

/-!
# Aligned items

Every item in a buffer starts at a multiple of `align_bytes` from the buffer's start. The builders
keep this without storing it anywhere: a new item starts where the written part ends, and the
written part ends at a multiple of `align_bytes` whenever a builder is constructed, because every
call that can come before a constructor either appends whole alignment units or ends with
`add_padding`, which pads the innermost item to a whole number of units. This module follows that
argument through a session.

The module introduces:

* `OpenBuilder.Settled buf b` — the written part ends at a multiple of `align_bytes`, unless `b` is a
  tag list builder, whose strings are padded only by its destructor, or a changeset discussion
  builder with a comment pending, whose text is still to come.
* `Session.Aligned s` — every open item starts at a multiple of `align_bytes`, the innermost builder
  is settled, and with no builder open the written part ends at a multiple of `align_bytes`.
* `Session.ObjectStep` — a call of a session that constructs object and changeset builders only at
  the top level and derived builders only there or on an object or changeset builder.

Along every such session on a buffer whose written part ends at a multiple of `align_bytes`, every
open item starts at a multiple of `align_bytes`, and so does the written part's end whenever no
builder is open (`Session.itemOffset_aligned_of_reaches`). When such a session destroys its last
open builder, that builder's size is every byte from its start, and the written part then ends at
its start plus its padded size (`Session.size_of_close_top_level`).
-/

namespace Osmium

open Memory

/-! ### What each call appends -/

section Lengths

variable (a : Allocator) {buf : Buffer}

/-- `add_padding` on an item whose size is its bytes ends the written part where the item started,
modulo `align_bytes`. -/
theorem SizesMatch.length_addPadding {b : Builder} (h : SizesMatch b buf) (self : Bool) :
    (b.addPadding a buf self).data.length % alignBytes = b.itemOffset % alignBytes := by
  have hdrop := drop_addPadding a h.itemsBefore le_rfl self
  rw [List.drop_length, List.nil_append] at hdrop
  have hlen := congrArg List.length hdrop
  rw [List.length_drop, List.length_replicate] at hlen
  have hgrow := (Builder.grows_addPadding a b buf self).length_le
  have hsize : b.size buf = (buf.data.length - b.itemOffset) % 2 ^ 32 := h.sizes _ (List.mem_cons_self _ _)
  have hin := h.inside
  have hpad := paddedLength_mod (b.size buf)
  have hle := le_paddedLength (b.size buf)
  unfold alignBytes at *
  omega

/-- The destructor's `add_padding()`: the padding follows the item and is counted in its ancestors
only, so the item's size stays. -/
theorem size_addPadding_false {b : Builder} (hb : b.ParentsBefore) (hin : b.itemOffset + 4 ≤ buf.data.length) :
    b.size (b.addPadding a buf false) = b.size buf ∧
      (b.addPadding a buf false).data.length = buf.data.length + (paddedLength (b.size buf) - b.size buf) := by
  have hitems : b.ItemsBefore buf.data.length := fun o ho => by
    rcases List.mem_cons.1 ho with rfl | ho
    · exact hin
    · exact (hb o ho).trans (by omega)
  have hdrop := drop_addPadding a hitems le_rfl false
  rw [List.drop_length, List.nil_append] at hdrop
  have hlen := congrArg List.length hdrop
  rw [List.length_drop, List.length_replicate] at hlen
  have hgrow := (Builder.grows_addPadding a b buf false).length_le
  refine ⟨?_, by omega⟩
  unfold Builder.addPadding
  dsimp only
  split_ifs with hpad hself
  · rfl
  · exact hself.elim
  · have hres : b.itemOffset + 4 ≤ (buf.reserveSpace a (alignBytes - b.size buf % alignBytes)).data.length := by
      rw [Buffer.reserveSpace_data, List.length_append]; omega
    unfold Builder.size at hres ⊢
    rw [byteSize_addSizes_of_add_le hb, byteSize_write_of_le hin hres, byteSize_reserveSpace a hin]

theorem length_addNodeRef {nb : NodeRefListBuilder} (hb : nb.ItemsBefore buf.data.length) (r : NodeRef) :
    (nb.addNodeRef a buf r).data.length = buf.data.length + nodeRefSize := by
  have hdata := Buffer.reserveSpace_write_data a buf r.bytes
  rw [NodeRef.length_bytes] at hdata
  unfold NodeRefListBuilder.addNodeRef
  rw [length_addSize (fun o ho => (hb o ho).trans (by rw [hdata, List.length_append]; omega)), hdata,
    List.length_append, NodeRef.length_bytes]

/-- `add_item` appends the item's padded size. -/
theorem length_addItem {b : Builder} (hb : b.ItemsBefore buf.data.length) (item : List UInt8) :
    (b.addItem a buf item).data.length = buf.data.length + paddedLength (byteSize item 0) := by
  have htake := List.length_take_le (paddedLength (byteSize item 0)) item
  have hres : (buf.reserveSpace a (paddedLength (byteSize item 0))).data.length =
      buf.data.length + paddedLength (byteSize item 0) := by
    rw [Buffer.reserveSpace_data, List.length_append, Buffer.length_fresh]
  have hwrite : ((buf.reserveSpace a (paddedLength (byteSize item 0))).write buf.data.length
      (item.take (paddedLength (byteSize item 0)))).data.length = buf.data.length + paddedLength (byteSize item 0) :=
    (length_writeBytes (by rw [hres]; omega)).trans hres
  unfold Builder.addItem
  rw [length_addSize (fun o ho => (hb o ho).trans (by rw [hwrite]; omega)), hwrite]

/-- The constructor of a top-level object or changeset builder: its fixed part and its eight-byte
slot for the user name are whole alignment units. -/
theorem length_makeWithUserSlot_aligned (layout : Layout) (hbuf : buf.data.length % alignBytes = 0)
    (type : ItemType) {minSizeForUser userSizeOffset : ℕ} (hU : itemHeaderSize ≤ userSizeOffset)
    (hU' : userSizeOffset + 2 ≤ layout.sizeOf type + minSizeForUser) (hm : minSizeForUser = 8) :
    (makeWithUserSlot layout a type minSizeForUser userSizeOffset buf none).2.data.length % alignBytes = 0 := by
  rw [(@sizesMatch_makeWithUserSlot layout a buf type _ _ hU hU').2]
  have hF := layout.sizeOf_aligned type
  unfold alignBytes at *
  omega

end Lengths

/-! ### Calls that end on a whole number of alignment units -/

section Calls

variable (a : Allocator) {buf : Buffer}

/-- `add_role`, when it returns normally, ends with `add_padding(true)`. -/
theorem SizesMatch.addRole_aligned {rb : RelationMemberListBuilder} (h : SizesMatch rb.toBuilder buf) {member : Ptr}
    (hmember : member.generation = buf.generation →
      rb.itemOffset + 4 ≤ member.offset + roleSizeOffset ∧ member.offset + roleSizeOffset + 2 ≤ buf.data.length)
    {role : List UInt8} (hok : (rb.addRole a buf member role).1 = .ok ()) :
    (rb.addRole a buf member role).2.data.length % alignBytes = rb.itemOffset % alignBytes := by
  unfold RelationMemberListBuilder.addRole at hok ⊢
  split_ifs at hok ⊢
  have h₁ := ((@SizesMatch.storeAt rb.toBuilder buf h (member.field roleSizeOffset)
    (encodeLE 2 (role.length % 2 ^ 16 + 1)) (by simpa only [Ptr.field, length_encodeLE] using hmember)).addSize_appends
    (appends_appendWithZero a role)).length_addPadding a true
  exact h₁

/-- `add_member`, when it returns normally, ends on a whole number of alignment units: `add_role`
pads the list, and a full member's copy is its padded size. -/
theorem SizesMatch.addMember_aligned {rb : RelationMemberListBuilder} (h : SizesMatch rb.toBuilder buf)
    (type : ItemType) (ref : ℤ) (role : List UInt8) (fullMember : Option (List UInt8))
    (hok : (rb.addMember a buf type ref role fullMember).1 = .ok ()) :
    (rb.addMember a buf type ref role fullMember).2.data.length % alignBytes = rb.itemOffset % alignBytes := by
  unfold RelationMemberListBuilder.addMember at hok ⊢
  dsimp only at hok ⊢
  have h₂ := (h.addMemberRecord a type ref fullMember.isSome).1
  have hfield := h.roleField_inside a type ref fullMember.isSome
  have h₃ := h₂.addRole a hfield role
  have hlen₃ := @SizesMatch.addRole_aligned a _ rb h₂ _ hfield role
  rcases hR : RelationMemberListBuilder.addRole a rb (rb.addSize ((buf.reserveSpace a relationMemberSize).storeAt
    ((buf.reserveSpace a relationMemberSize).ptr buf.data.length) (relationMemberImage ref type fullMember.isSome))
    relationMemberSize) ((buf.reserveSpace a relationMemberSize).ptr buf.data.length) role with ⟨r, buf₃⟩
  rw [hR] at h₃ hlen₃ hok
  rcases r with e | ⟨⟩
  · cases hok
  · cases fullMember with
    | none => exact hlen₃ rfl
    | some item =>
      have hmod := paddedLength_mod (byteSize item 0)
      rw [length_addItem a h₃.itemsBefore]
      have := hlen₃ rfl
      unfold alignBytes at *
      omega

/-- `add_text`, when it returns normally, ends with `add_padding(true)`. -/
theorem SizesMatch.addText_aligned {db : ChangesetDiscussionBuilder} (h : SizesMatch db.toBuilder buf) {comment : Ptr}
    (hc : comment.generation = buf.generation →
      db.itemOffset + 4 ≤ comment.offset + textSizeOffset ∧ comment.offset + textSizeOffset + 4 ≤ buf.data.length)
    {text : List UInt8} (hok : (db.addText a buf comment text).1 = .ok ()) :
    (db.addText a buf comment text).2.data.length % alignBytes = db.itemOffset % alignBytes := by
  unfold ChangesetDiscussionBuilder.addText at hok ⊢
  split_ifs at hok ⊢
  have h₁ := ((@SizesMatch.storeAt db.toBuilder buf h (comment.field textSizeOffset)
    (encodeLE 4 (text.length % 2 ^ 32 + 1)) (by simpa only [Ptr.field, length_encodeLE] using hc)).addSize_appends
    (appends_appendWithZero a text)).length_addPadding a true
  exact h₁

/-- `add_comment_text`, when it returns normally, ends with `add_text`'s padding. -/
theorem SizesMatch.addCommentTextWith_aligned {db : ChangesetDiscussionBuilder} (h : SizesMatch db.toBuilder buf)
    (hready : CommentReady db buf) {text : List UInt8} (hok : (db.addCommentTextWith a buf text).1 = .ok ()) :
    (db.addCommentTextWith a buf text).2.2.data.length % alignBytes = db.itemOffset % alignBytes := by
  unfold ChangesetDiscussionBuilder.addCommentTextWith at hok ⊢
  split at hok
  · cases hok
  · next comment hcomment =>
    have hcur := (hready comment hcomment).2
    exact @SizesMatch.addText_aligned a buf { db with comment := none } h comment
      (fun hgen => ⟨by show db.itemOffset + 4 ≤ _; have := (hcur hgen).1; unfold itemHeaderSize at this
                       unfold textSizeOffset; omega,
        by have := (hcur hgen).2; unfold changesetCommentSize at this; unfold textSizeOffset; omega⟩) text hok

/-- After `add_comment` returns normally, a comment is pending. -/
theorem addComment_comment_isSome {db : ChangesetDiscussionBuilder} {date uid : ℕ} {user : CString}
    (hok : (db.addComment a buf date uid user).1 = .ok ()) : (db.addComment a buf date uid user).2.1.comment.isSome := by
  unfold ChangesetDiscussionBuilder.addComment at hok ⊢
  split_ifs at hok ⊢
  rfl

variable (layout : Layout)

/-- `add_tags` ends with the tag list builder's destructor, which pads the tag list. -/
theorem SizesMatch.addTags_aligned {ob : OSMObjectBuilder} (h : SizesMatch ob.toBuilder buf)
    (tags : List (CString × CString)) :
    (ob.addTags layout a buf tags).2.data.length % alignBytes = buf.data.length % alignBytes := by
  have hmade : SizesMatch (TagListBuilder.make layout a buf (some ob.toBuilder)).1.toBuilder
      (TagListBuilder.make layout a buf (some ob.toBuilder)).2 :=
    h.make_write_some layout a .tagList
  exact (hmade.runAddTags a _).length_addPadding a false

/-- `add_node_refs` ends with the node list builder's destructor, which pads the node list. -/
theorem SizesMatch.addNodeRefs_aligned {ob : OSMObjectBuilder} (h : SizesMatch ob.toBuilder buf)
    (nodes : List NodeRef) :
    (ob.addNodeRefs layout a buf nodes).data.length % alignBytes = buf.data.length % alignBytes := by
  have hmade : SizesMatch (NodeRefListBuilder.make layout a .wayNodeList buf (some ob.toBuilder)).1.toBuilder
      (NodeRefListBuilder.make layout a .wayNodeList buf (some ob.toBuilder)).2 :=
    h.make_write_some layout a .wayNodeList
  exact (hmade.foldl_addNodeRef a nodes).length_addPadding a false

end Calls

/-! ### Aligned sessions -/

namespace OpenBuilder

/-- Object and changeset builders, on which the derived builders are constructed. -/
def isObject : OpenBuilder → Bool
  | object _ | changeset _ => true
  | _ => false

/-- While `b` is the innermost builder, the written part ends at a multiple of `align_bytes`, except
after a tag list's strings, padded only by its destructor, and within a pending comment, padded by
`add_comment_text`. -/
def Settled (buf : Buffer) : OpenBuilder → Prop
  | tagList _ => True
  | discussion db => db.comment = none → buf.data.length % alignBytes = 0
  | _ => buf.data.length % alignBytes = 0

theorem settled_of_aligned {buf : Buffer} (h : buf.data.length % alignBytes = 0) (b : OpenBuilder) :
    b.Settled buf := by
  cases b <;> first | trivial | exact h | exact fun _ => h

theorem Settled.aligned {buf : Buffer} {b : OpenBuilder} (h : b.Settled buf) (hb : b.isObject) :
    buf.data.length % alignBytes = 0 := by
  cases b with
  | object _ | changeset _ => exact h
  | _ => cases hb

end OpenBuilder

/-- The destructor, when it returns normally, ends the written part on a whole number of alignment
units: object and changeset builders have none, and the other builders pad their item. -/
theorem SizesMatch.destroy_aligned {a : Allocator} {buf buf' : Buffer} {b : OpenBuilder}
    (h : SizesMatch b.toBuilder buf) (hs : b.Settled buf) (hd : b.destroy a buf = (.ok (), buf')) :
    buf'.data.length % alignBytes = b.toBuilder.itemOffset % alignBytes ∨ buf'.data.length % alignBytes = 0 := by
  cases b with
  | object _ | changeset _ => cases hd; exact .inr hs
  | tagList _ | nodeRefList _ | memberList _ => cases hd; exact .inl (h.length_addPadding a false)
  | discussion db =>
    dsimp only [OpenBuilder.destroy, ChangesetDiscussionBuilder.destroy] at hd
    split_ifs at hd
    · cases hd; exact .inl (h.length_addPadding a false)
    · cases hd

/-- The constructors of the derived builders. -/
def Op.opensDerived : Op → Bool
  | newTagList | newNodeRefList _ | newMemberList | newDiscussion => true
  | _ => false

namespace Session

/-- Every open item starts at a multiple of `align_bytes`, the innermost builder is settled, and with
no builder open the written part ends at a multiple of `align_bytes`. -/
structure Aligned (s : Session) : Prop where
  /-- Each open item starts at a multiple of `align_bytes`. -/
  offsets : ∀ b ∈ s.stack, b.toBuilder.itemOffset % alignBytes = 0
  /-- The innermost builder is settled. -/
  settled : ∀ b ∈ s.stack.head?, b.Settled s.buf
  /-- With no builder open, the written part ends at a multiple of `align_bytes`. -/
  top : s.stack = [] → s.buf.data.length % alignBytes = 0

variable {layout : Layout} {a : Allocator}

/-- A session whose written part ends at a multiple of `align_bytes`, with aligned open items. -/
theorem aligned_of_length {buf : Buffer} {stack : List OpenBuilder}
    (hoffsets : ∀ b ∈ stack, b.toBuilder.itemOffset % alignBytes = 0) (hlen : buf.data.length % alignBytes = 0) :
    Aligned ⟨buf, stack⟩ :=
  ⟨hoffsets, fun b _ => OpenBuilder.settled_of_aligned hlen b, fun _ => hlen⟩

/-- Where a derived builder may be constructed, the written part ends at a multiple of `align_bytes`. -/
theorem Aligned.length_of_isObject {s : Session} (ha : s.Aligned) (hhead : ∀ b ∈ s.stack.head?, b.isObject) :
    s.buf.data.length % alignBytes = 0 := by
  obtain ⟨buf, _ | ⟨b, rest⟩⟩ := s
  · exact ha.top rfl
  · exact (ha.settled b rfl).aligned (hhead b rfl)

/-- A member call of the innermost builder that keeps it settled. -/
theorem Aligned.keep {b : OpenBuilder} {rest : List OpenBuilder} {buf buf' : Buffer} (ha : Aligned ⟨buf, b :: rest⟩)
    (hsettled : b.Settled buf') : Aligned ⟨buf', b :: rest⟩ :=
  ⟨ha.offsets, fun c hc => by rw [List.head?_cons, Option.mem_def, Option.some_inj] at hc; exact hc ▸ hsettled,
    fun h => nomatch h⟩

/-- A call of the innermost changeset discussion builder that changes only its `m_comment`. -/
theorem Aligned.replace {db db' : ChangesetDiscussionBuilder} {rest : List OpenBuilder} {buf buf' : Buffer}
    (ha : Aligned ⟨buf, .discussion db :: rest⟩) (hb : db'.toBuilder = db.toBuilder)
    (hsettled : (OpenBuilder.discussion db').Settled buf') : Aligned ⟨buf', .discussion db' :: rest⟩ :=
  ⟨List.forall_mem_cons.2 ⟨show db'.toBuilder.itemOffset % alignBytes = 0 from hb ▸ ha.offsets _ (List.mem_cons_self _ _),
    fun c hc => ha.offsets c (List.mem_cons_of_mem _ hc)⟩,
    fun c hc => by rw [List.head?_cons, Option.mem_def, Option.some_inj] at hc; exact hc ▸ hsettled, fun h => nomatch h⟩

/-- The constructor of a derived builder, where the written part ends at a multiple of `align_bytes`:
the fixed part is a whole number of alignment units. -/
theorem Aligned.push_make {s : Session} (ha : s.Aligned) (hv : s.Valid layout) (t : ItemType) {b : OpenBuilder}
    (hb : b.toBuilder = (Builder.make a s.buf s.parent (layout.sizeOf t)).1)
    (hlen : s.buf.data.length % alignBytes = 0) :
    Aligned ⟨(Builder.make a s.buf s.parent (layout.sizeOf t)).2.write s.buf.data.length (layout.image t),
      b :: s.stack⟩ := by
  have hW := length_make_write a (fun p hp => (hv.parent p hp).itemsBefore) (layout.length_image t)
  have hF := layout.sizeOf_aligned t
  refine aligned_of_length (List.forall_mem_cons.2 ⟨by rw [hb]; exact hlen, ha.offsets⟩) ?_
  rw [hW]
  unfold alignBytes at *
  omega

theorem Aligned.after {b : OpenBuilder} {rest : List OpenBuilder} {buf : Buffer} {s' : Session}
    (ha : Aligned ⟨buf, b :: rest⟩) {r : Except Failure Unit × Buffer} (hsettled : r.1 = .ok () → b.Settled r.2)
    (hs : Session.after ⟨buf, b :: rest⟩ r = some s') : s'.Aligned := by
  unfold Session.after at hs
  split at hs
  · next hr => cases hs; exact ha.keep (hsettled hr)
  · cases hs

/-- Every call of a session that constructs object and changeset builders only at the top level, and
derived builders only there or on an object or changeset builder, keeps it aligned. -/
theorem Aligned.step {s s' : Session} {op : Op} (hv : s.Valid layout) (ha : s.Aligned)
    (hop : op.opensObject → s.stack = []) (hder : op.opensDerived → ∀ b ∈ s.stack.head?, b.isObject)
    (hs : s.step layout a op = some s') : s'.Aligned := by
  obtain ⟨buf, stack⟩ := s
  cases op with
  | newObject type =>
    obtain rfl : stack = [] := hop rfl
    cases hs
    exact aligned_of_length (List.forall_mem_singleton.2 (ha.top rfl)) (length_makeWithUserSlot_aligned a layout
      (ha.top rfl) type (layout.itemHeaderSize_le type) (Nat.add_le_add_left (by decide) _) rfl)
  | newChangeset =>
    obtain rfl : stack = [] := hop rfl
    cases hs
    exact aligned_of_length (List.forall_mem_singleton.2 (ha.top rfl)) (length_makeWithUserSlot_aligned a layout
      (ha.top rfl) .changeset layout.itemHeaderSize_le_changesetUserSizeOffset
      (layout.changesetUserSizeOffset_add_le.trans (Nat.le_add_right _ _)) rfl)
  | newTagList => cases hs; exact ha.push_make hv .tagList rfl (ha.length_of_isObject (hder rfl))
  | newNodeRefList type => cases hs; exact ha.push_make hv type rfl (ha.length_of_isObject (hder rfl))
  | newMemberList => cases hs; exact ha.push_make hv .relationMemberList rfl (ha.length_of_isObject (hder rfl))
  | newDiscussion => cases hs; exact ha.push_make hv .changesetDiscussion rfl (ha.length_of_isObject (hder rfl))
  | setUser user length =>
    rcases stack with _ | ⟨_ | _ | _ | _ | _ | _, rest⟩ <;> simp only [Session.step, reduceCtorEq] at hs
    · exact ha.after (fun _ => (hv.head.objectSetUser layout a hv.ready_head user length).2.trans (ha.settled _ rfl)) hs
    · exact ha.after (fun _ => (hv.head.changesetSetUser layout a hv.ready_head user length).2.trans
        (ha.settled _ rfl)) hs
  | addTag c =>
    rcases stack with _ | ⟨_ | _ | tb | _ | _ | _, rest⟩ <;> simp only [Session.step, reduceCtorEq] at hs
    exact ha.after (fun _ => trivial) hs
  | addNodeRef r =>
    rcases stack with _ | ⟨_ | _ | _ | nb | _ | _, rest⟩ <;> simp only [Session.step, reduceCtorEq] at hs
    cases hs
    have hsettled : buf.data.length % alignBytes = 0 := ha.settled _ rfl
    refine ha.keep (show (nb.addNodeRef a buf r).data.length % alignBytes = 0 from ?_)
    rw [length_addNodeRef a hv.head.itemsBefore]
    unfold alignBytes nodeRefSize at *
    omega
  | addMember type ref role fullMember =>
    rcases stack with _ | ⟨_ | _ | _ | _ | rb | _, rest⟩ <;> simp only [Session.step, reduceCtorEq] at hs
    exact ha.after (fun hok => (hv.head.addMember_aligned a type ref role fullMember hok).trans
      (ha.offsets _ (List.mem_cons_self _ _))) hs
  | addComment date uid user =>
    rcases stack with _ | ⟨_ | _ | _ | _ | _ | db, rest⟩ <;> simp only [Session.step, reduceCtorEq] at hs
    split at hs
    · next db' buf' heq =>
      cases hs
      have hb := @addComment_toBuilder a db buf date uid user
      have hsome := @addComment_comment_isSome a buf db date uid user (by rw [heq])
      rw [heq] at hb hsome
      exact ha.replace hb fun hnone => by rw [hnone] at hsome; cases hsome
    · cases hs
  | addCommentText text =>
    rcases stack with _ | ⟨_ | _ | _ | _ | _ | db, rest⟩ <;> simp only [Session.step, reduceCtorEq] at hs
    split at hs
    · next db' buf' heq =>
      cases hs
      have hb := @addCommentTextWith_toBuilder a db buf text
      have hlen := hv.head.addCommentTextWith_aligned a hv.ready_head (by rw [heq])
      rw [heq] at hb hlen
      exact ha.replace hb (OpenBuilder.settled_of_aligned (hlen.trans (ha.offsets _ (List.mem_cons_self _ _))) _)
    · cases hs
  | addTags tags =>
    rcases stack with _ | ⟨ob | _ | _ | _ | _ | _, rest⟩ <;> simp only [Session.step, reduceCtorEq] at hs
    exact ha.after (fun _ => (hv.head.addTags_aligned a layout tags).trans (ha.settled _ rfl)) hs
  | addNodeRefs nodes =>
    rcases stack with _ | ⟨ob | _ | _ | _ | _ | _, rest⟩ <;> simp only [Session.step, reduceCtorEq] at hs
    split at hs
    · cases hs
      exact ha.keep ((hv.head.addNodeRefs_aligned a layout nodes).trans (ha.settled _ rfl))
    · cases hs
  | close =>
    rcases stack with _ | ⟨b, rest⟩ <;> simp only [Session.step, reduceCtorEq] at hs
    split at hs
    · next buf' heq =>
      cases hs
      have hlen : buf'.data.length % alignBytes = 0 := by
        rcases hv.head.destroy_aligned (ha.settled b rfl) heq with h | h
        · exact h.trans (ha.offsets b (List.mem_cons_self _ _))
        · exact h
      exact aligned_of_length (fun c hc => ha.offsets c (List.mem_cons_of_mem _ hc)) hlen
    · cases hs

variable (layout a)

/-- One call of a session that constructs object and changeset builders only at the top level and
derived builders only there or on an object or changeset builder. -/
def ObjectStep (s s' : Session) : Prop :=
  ∃ op : Op, (op.opensObject → s.stack = []) ∧ (op.opensDerived → ∀ b ∈ s.stack.head?, b.isObject) ∧
    s.step layout a op = some s'

theorem valid_aligned_of_reaches {s s' : Session} (hv : s.Valid layout) (ha : s.Aligned)
    (hrun : Relation.ReflTransGen (ObjectStep layout a) s s') : s'.Valid layout ∧ s'.Aligned := by
  induction hrun with
  | refl => exact ⟨hv, ha⟩
  | tail _ hstep ih =>
    obtain ⟨op, hop, hder, hs⟩ := hstep
    exact ⟨ih.1.step hop hs, ih.2.step ih.1 hop hder hs⟩

/-- Along every session on a buffer whose written part ends at a multiple of `align_bytes`, that
constructs object and changeset builders only at the top level and derived builders only there or
on an object or changeset builder, every open item starts at a multiple of `align_bytes`, and with no
builder open the written part ends at one. -/
theorem itemOffset_aligned_of_reaches {buf : Buffer} (hbuf : buf.data.length % alignBytes = 0) {s : Session}
    (hrun : Relation.ReflTransGen (ObjectStep layout a) ⟨buf, []⟩ s) :
    (∀ b ∈ s.stack, b.toBuilder.itemOffset % alignBytes = 0) ∧ (s.stack = [] → s.buf.data.length % alignBytes = 0) :=
  have ha := (valid_aligned_of_reaches layout a (valid_nil layout buf)
    (aligned_of_length (fun _ h => nomatch h) hbuf) hrun).2
  ⟨ha.offsets, ha.top⟩

/-- The destructor, when it returns normally: object and changeset builders have none, and the other
builders pad their item without counting the padding in its size. -/
theorem OpenBuilder.destroy_eq {b : OpenBuilder} {buf buf' : Buffer} (hb : b.toBuilder.ParentsBefore)
    (hin : b.toBuilder.itemOffset + 4 ≤ buf.data.length) (hd : b.destroy a buf = (.ok (), buf')) :
    buf' = buf ∧ b.isObject ∨ b.toBuilder.size buf' = b.toBuilder.size buf ∧
      buf'.data.length = buf.data.length + (paddedLength (b.toBuilder.size buf) - b.toBuilder.size buf) := by
  cases b with
  | object _ | changeset _ => cases hd; exact .inl ⟨rfl, rfl⟩
  | tagList _ | nodeRefList _ | memberList _ => cases hd; exact .inr (size_addPadding_false a hb hin)
  | discussion db =>
    dsimp only [OpenBuilder.destroy, ChangesetDiscussionBuilder.destroy] at hd
    split_ifs at hd
    · cases hd; exact .inr (size_addPadding_false a hb hin)
    · cases hd

/-- Destroying the last open builder of a session: its size is every byte from its start to the end
of the written part, and the written part then ends at its padded size. Object and changeset
builders have no destructor, their items being whole alignment units already; the other builders
append the padding, which no item counts. -/
theorem size_of_close_top_level {buf : Buffer} (hbuf : buf.data.length % alignBytes = 0) {buf₁ : Buffer}
    {b : OpenBuilder} (hrun : Relation.ReflTransGen (ObjectStep layout a) ⟨buf, []⟩ ⟨buf₁, [b]⟩)
    (hsmall : buf₁.data.length - b.toBuilder.itemOffset < 2 ^ 32) {s₂ : Session}
    (hclose : Session.step layout a ⟨buf₁, [b]⟩ .close = some s₂) :
    s₂.stack = [] ∧ b.toBuilder.size s₂.buf = buf₁.data.length - b.toBuilder.itemOffset ∧
      s₂.buf.data.length = b.toBuilder.itemOffset + paddedLength (b.toBuilder.size s₂.buf) := by
  obtain ⟨hv, ha⟩ := valid_aligned_of_reaches layout a (valid_nil layout buf)
    (aligned_of_length (fun _ h => nomatch h) hbuf) hrun
  have hsize : b.toBuilder.size buf₁ = buf₁.data.length - b.toBuilder.itemOffset :=
    (hv.head.sizes _ (List.mem_cons_self _ _)).trans (Nat.mod_eq_of_lt hsmall)
  have hin := hv.head.inside
  have hio : b.toBuilder.itemOffset % alignBytes = 0 := ha.offsets b (List.mem_singleton_self _)
  have hle := le_paddedLength (b.toBuilder.size buf₁)
  unfold itemHeaderSize at hin
  simp only [Session.step] at hclose
  split at hclose
  · next buf₂ hd =>
    cases hclose
    dsimp only
    rcases OpenBuilder.destroy_eq a hv.head.parentsBefore (by omega) hd with ⟨hbuf₂, hobj⟩ | ⟨hsize₂, hlen₂⟩
    · have hlen : buf₁.data.length % alignBytes = 0 := (ha.settled b rfl).aligned hobj
      refine ⟨rfl, hbuf₂ ▸ hsize, ?_⟩
      rw [hbuf₂, hsize, paddedLength_eq_self (by unfold alignBytes at *; omega)]
      omega
    · refine ⟨rfl, hsize₂.trans hsize, ?_⟩
      rw [hsize₂, hlen₂]
      omega
  · cases hclose

/-- The tag `name=x`, fifteen bytes with its tag list's header. -/
def nameX : AddTagCall :=
  .cStrings ⟨[0x6e, 0x61, 0x6d, 0x65], by decide⟩ ⟨[0x78], by decide⟩

/-- A top-level tag list holding `name=x` on an empty buffer: its fifteen bytes are padded to sixteen
when it is destroyed. -/
theorem size_of_close_top_level_tags :
    ∃ buf₁ b s₂, Relation.ReflTransGen (ObjectStep Layout.amd64 Allocator.sample) ⟨⟨[], 64, 0⟩, []⟩ ⟨buf₁, [b]⟩ ∧
      buf₁.data.length - b.toBuilder.itemOffset < 2 ^ 32 ∧
      Session.step Layout.amd64 Allocator.sample ⟨buf₁, [b]⟩ .close = some s₂ ∧
      b.toBuilder.size s₂.buf = 15 ∧ s₂.buf.data.length = 16 ∧
      (s₂.stack = [] ∧ b.toBuilder.size s₂.buf = buf₁.data.length - b.toBuilder.itemOffset ∧
        s₂.buf.data.length = b.toBuilder.itemOffset + paddedLength (b.toBuilder.size s₂.buf)) := by
  have hrun : Relation.ReflTransGen (ObjectStep Layout.amd64 Allocator.sample) ⟨⟨[], 64, 0⟩, []⟩ _ :=
    (Relation.ReflTransGen.single ⟨.newTagList, fun h => (nomatch h), fun _ _ h => (nomatch h), rfl⟩).tail
      ⟨.addTag nameX, fun h => (nomatch h), fun h => (nomatch h), rfl⟩
  exact ⟨_, _, _, hrun, by decide, rfl, by decide, by decide,
    size_of_close_top_level _ _ (by decide) hrun (by decide) rfl⟩

set_option maxRecDepth 2000 in
/-- A way with a name, a tag list holding `highway=primary` and two node references, each list
builder destroyed, on an empty buffer: nothing is left open, and the written part is 112 bytes. -/
theorem itemOffset_aligned_of_reaches_way :
    ∃ s, Relation.ReflTransGen (ObjectStep Layout.amd64 Allocator.sample) ⟨⟨[], 64, 0⟩, []⟩ s ∧
      s.stack = [] ∧ s.buf.data.length = 112 ∧
      (∀ b ∈ s.stack, b.toBuilder.itemOffset % alignBytes = 0) ∧ (s.stack = [] → s.buf.data.length % alignBytes = 0) := by
  have hobject : ∀ ob : OSMObjectBuilder, ∀ b ∈ [OpenBuilder.object ob].head?, b.isObject := fun _ _ hb => by
    cases Option.mem_def.1 hb; rfl
  have hrun : Relation.ReflTransGen (ObjectStep Layout.amd64 Allocator.sample) ⟨⟨[], 64, 0⟩, []⟩ _ :=
    ((((((Relation.ReflTransGen.single ⟨.newObject .way, fun _ => rfl, fun h => (nomatch h), rfl⟩).tail
      ⟨.setUser mapperName mapperName.length, fun h => (nomatch h), fun h => (nomatch h), rfl⟩).tail
      ⟨.newTagList, fun h => (nomatch h), fun _ => hobject _, rfl⟩).tail
      ⟨.addTag highwayPrimary, fun h => (nomatch h), fun h => (nomatch h), rfl⟩).tail
      ⟨.close, fun h => (nomatch h), fun h => (nomatch h), rfl⟩).tail
      ⟨.addNodeRefs [⟨1, 0, 0⟩, ⟨2, 0, 0⟩], fun h => (nomatch h), fun h => (nomatch h), rfl⟩).tail
      ⟨.close, fun h => (nomatch h), fun h => (nomatch h), rfl⟩
  exact ⟨_, hrun, rfl, rfl, itemOffset_aligned_of_reaches _ _ (by decide) hrun⟩

end Session

end Osmium
