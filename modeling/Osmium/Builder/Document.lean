import Osmium.Builder.Unwind
import Osmium.Builder.MemberList

/-!
# The document a builder session writes

What the builders are for. A session writes OSM entities into a buffer: objects (nodes, ways,
relations, areas) and changesets, each with a user name and sub-items, and collections: tag lists,
lists of node references, relation member lists and changeset discussions. This module states that
content as values, a `Document`, apart from how the builders write it:

* `Document.render`: the bytes a document takes in libosmium's item format. Every item is its
  header, whose size counts the item's bytes up to the end of the written part, then its fixed
  fields and its content; a finished item is padded to a multiple of `align_bytes`. An entity's user
  name sits in a slot after its fixed part (after a `user_size` field for an object, with the field in
  the fixed part for a changeset), zero-terminated and padded; its finished sub-items follow.
* `Document.step`: what each call of a session adds. The calls keep to the nesting the builder
  classes document: entities at the top level, collections there or on the entity open there. A
  call fails, as the code's checks and assertions make it fail, when its builder is not the innermost
  one, when a string is too long, when `set_user` comes after a non-empty name or a sub-item, and
  when the comment protocol of a discussion is broken; `Document.run` makes the calls one after the
  other.

`render` gives cells (`Osmium.Memory.Fills`): every byte the code writes, and `none` for the two
bytes of padding in a relation member's and a changeset comment's record, which no builder writes.
`Osmium.Builder.Refinement` shows that the builders fill `render` of the document the same calls
build.
-/

namespace Osmium

open Memory

namespace Document

/-- A changeset comment as `add_comment` starts it: its date, the user's id and the user's name. -/
structure CommentHead where
  /-- The comment's date, an `osmium::Timestamp`. -/
  date : ℕ
  /-- The user's id. -/
  uid : ℕ
  /-- The user's name. -/
  user : List UInt8

/-- A changeset comment once `add_comment_text` has given it its text. -/
structure Comment extends CommentHead where
  /-- The comment's text. -/
  text : List UInt8

/-- A collection: what a `TagListBuilder`, a `NodeRefListBuilder`, a `RelationMemberListBuilder` or a
`ChangesetDiscussionBuilder` writes. A discussion may hold the head of a comment whose text is still
to come. -/
inductive ListItem
  | tagList (tags : List (List UInt8 × List UInt8))
  | nodeRefList (type : ItemType) (refs : List NodeRef)
  | memberList (members : List MemberCall)
  | discussion (comments : List Comment) (pending : Option CommentHead)

/-- An entity: an OSM object of some kind or a changeset, with its user name and its finished
sub-items, in order. -/
inductive Entity
  | object (type : ItemType) (user : List UInt8) (subs : List ListItem)
  | changeset (user : List UInt8) (subs : List ListItem)

/-- A top-level item. -/
inductive Item
  | entity (e : Entity)
  | list (l : ListItem)

/-- The open items: none, one at the top level, or a collection open on the entity open at the top
level. -/
inductive Open
  | empty
  | top (x : Item)
  | sub (e : Entity) (l : ListItem)

end Document

/-- The content of a buffer being written: the finished top-level items, in order, and the open
ones. -/
structure Document where
  /-- The finished top-level items. -/
  done : List Document.Item
  /-- The open items. -/
  current : Document.Open

namespace Document

/-! ## The items' bytes -/

section Render

variable (layout : Layout)

/-- `bytes` and the zeros up to the next multiple of `align_bytes`, as `add_padding` appends them. -/
def padded (bytes : List UInt8) : List UInt8 :=
  bytes ++ List.replicate (paddedLength bytes.length - bytes.length) 0

/-- An item of kind `type`: its header, whose size counts the header and `body`, then `body`. -/
def frame (type : ItemType) (body : List UInt8) : List UInt8 :=
  itemHeader (itemHeaderSize + body.length) type ++ body

/-- `padded` on cells: the zeros `add_padding` writes after `cells`. -/
def Cells.padded (cells : List (Option UInt8)) : List (Option UInt8) :=
  cells ++ written (List.replicate (paddedLength cells.length - cells.length) 0)

/-- `frame` on cells: the header, whose size counts the header and `body`, then `body`. -/
def Cells.frame (type : ItemType) (body : List (Option UInt8)) : List (Option UInt8) :=
  written (itemHeader (itemHeaderSize + body.length) type) ++ body

/-- The fields of a fixed part after its header, zero-initialised by `T{}`. -/
def fixedFields (type : ItemType) : List UInt8 :=
  List.replicate (layout.sizeOf type - itemHeaderSize) 0

/-- The fields of a `ChangesetComment` record with the text size `textSize`: the date, the user id,
`text_size` and `user_size`. -/
def CommentHead.fields (h : CommentHead) (textSize : ℕ) : List UInt8 :=
  encodeLE 4 h.date ++ encodeLE 4 h.uid ++ encodeLE 4 textSize ++ encodeLE 2 (h.user.length + 1)

/-- A `ChangesetComment` record with the text size `textSize`, whose two bytes of padding the code
does not write, then the user name and its zero. -/
def CommentHead.bytes (h : CommentHead) (textSize : ℕ) : List (Option UInt8) :=
  written (h.fields textSize) ++ List.replicate 2 none ++ written (h.user ++ [0])

/-- A finished comment: its record, the user name and the text, each with its zero, padded. -/
def Comment.bytes (c : Comment) : List (Option UInt8) :=
  Cells.padded (c.toCommentHead.bytes (c.text.length + 1) ++ written (c.text ++ [0]))

namespace ListItem

/-- The kind of a collection. -/
def type : ListItem → ItemType
  | tagList _ => .tagList
  | nodeRefList t _ => t
  | memberList _ => .relationMemberList
  | discussion _ _ => .changesetDiscussion

/-- A collection's bytes after its header: its fixed fields, then its entries; a pending comment's
record has a text size of zero. -/
def body : ListItem → List (Option UInt8)
  | tagList tags => written (fixedFields layout .tagList ++ tags.flatMap fun t => t.1 ++ [0] ++ (t.2 ++ [0]))
  | nodeRefList t refs => written (fixedFields layout t ++ refs.flatMap NodeRef.bytes)
  | memberList members => written (fixedFields layout .relationMemberList) ++ members.flatMap MemberCall.record
  | discussion comments pending =>
    written (fixedFields layout .changesetDiscussion) ++ comments.flatMap Comment.bytes ++
      (pending.map fun h => h.bytes 0).getD []

/-- A collection's bytes. -/
def bytes (l : ListItem) : List (Option UInt8) := Cells.frame l.type (l.body layout)

end ListItem

namespace Entity

/-- The kind of an entity. -/
def type : Entity → ItemType
  | object t _ _ => t
  | changeset _ _ => .changeset

/-- An entity's user name. -/
def user : Entity → List UInt8
  | object _ u _ | changeset u _ => u

/-- An entity's finished sub-items. -/
def subs : Entity → List ListItem
  | object _ _ subs | changeset _ subs => subs

/-- An entity's bytes after its header: the fixed fields, the user slot, then the finished
sub-items, each padded. An object's slot starts with `user_size`; a changeset's `user_size` is one of
its fixed fields. -/
def body : Entity → List (Option UInt8)
  | object t u subs =>
    written (fixedFields layout t ++ padded (encodeLE 2 (u.length + 1) ++ (u ++ [0]))) ++
      subs.flatMap fun l => Cells.padded (l.bytes layout)
  | changeset u subs =>
    written (writeBytes (fixedFields layout .changeset) (layout.changesetUserSizeOffset - itemHeaderSize)
        (encodeLE 2 (u.length + 1)) ++ padded (u ++ [0])) ++
      subs.flatMap fun l => Cells.padded (l.bytes layout)

/-- An entity's bytes. -/
def bytes (e : Entity) : List (Option UInt8) := Cells.frame e.type (e.body layout)

end Entity

/-- A top-level item's kind. -/
def Item.type : Item → ItemType
  | .entity e => e.type
  | .list l => l.type

/-- A top-level item's bytes after its header. -/
def Item.body : Item → List (Option UInt8)
  | .entity e => e.body layout
  | .list l => l.body layout

/-- A top-level item's bytes. -/
def Item.bytes (x : Item) : List (Option UInt8) := Cells.frame x.type (x.body layout)

/-- The open items' bytes: the header of the outer one counts the inner one's. -/
def Open.bytes : Open → List (Option UInt8)
  | .empty => []
  | .top x => x.bytes layout
  | .sub e l => Cells.frame e.type (e.body layout ++ l.bytes layout)

/-- The bytes of finished items, each padded. -/
def doneBytes (done : List Item) : List (Option UInt8) := done.flatMap fun x => Cells.padded (x.bytes layout)

/-- The bytes of a document, the finished items then the open ones, as cells: `none` marks a byte the
code never writes, the padding of a relation member's or a changeset comment's record. -/
def render (d : Document) : List (Option UInt8) := doneBytes layout d.done ++ d.current.bytes layout

end Render

/-! ## Lengths -/

section Lengths

variable {layout : Layout}

@[simp]
theorem length_padded (bytes : List UInt8) : (padded bytes).length = paddedLength bytes.length := by
  have := le_paddedLength bytes.length
  simp only [padded, List.length_append, List.length_replicate]
  omega

@[simp]
theorem length_frame (t : ItemType) (body : List UInt8) : (frame t body).length = itemHeaderSize + body.length := by
  simp [frame]

@[simp]
theorem Cells.length_padded (cells : List (Option UInt8)) :
    (Cells.padded cells).length = paddedLength cells.length := by
  have := le_paddedLength cells.length
  simp only [Cells.padded, List.length_append, length_written, List.length_replicate]
  omega

@[simp]
theorem Cells.length_frame (t : ItemType) (body : List (Option UInt8)) :
    (Cells.frame t body).length = itemHeaderSize + body.length := by
  simp [Cells.frame]

theorem length_padded_mod (bytes : List UInt8) : (padded bytes).length % alignBytes = 0 := by
  rw [length_padded, paddedLength_mod]

theorem Cells.padded_of_mod {cells : List (Option UInt8)} (h : cells.length % alignBytes = 0) :
    Cells.padded cells = cells := by
  rw [Cells.padded, paddedLength_eq_self h, Nat.sub_self, List.replicate_zero]
  exact List.append_nil cells

/-- Cells that are whole alignment units, each padded, are whole alignment units. -/
theorem length_flatMap_padded_mod {α : Type} (xs : List α) (f : α → List (Option UInt8)) :
    (xs.flatMap fun x => Cells.padded (f x)).length % alignBytes = 0 := by
  induction xs with
  | nil => rfl
  | cons x xs ih =>
    have hx : (Cells.padded (f x)).length % alignBytes = 0 := by rw [Cells.length_padded, paddedLength_mod]
    rw [List.flatMap_cons, List.length_append]
    unfold alignBytes at *
    omega

@[simp]
theorem length_fixedFields (t : ItemType) : (fixedFields layout t).length = layout.sizeOf t - itemHeaderSize :=
  List.length_replicate _ _

theorem length_fixedFields_mod (t : ItemType) : (fixedFields layout t).length % alignBytes = 0 := by
  have := layout.sizeOf_aligned t
  have := layout.itemHeaderSize_le t
  rw [length_fixedFields]
  unfold itemHeaderSize alignBytes at *
  omega

/-- The changeset's `user_size` field lies within its fixed fields. -/
theorem length_changesetFields (u : List UInt8) :
    (writeBytes (fixedFields layout .changeset) (layout.changesetUserSizeOffset - itemHeaderSize)
      (encodeLE 2 (u.length + 1))).length = (fixedFields layout .changeset).length := by
  have := layout.changesetUserSizeOffset_add_le
  have := layout.itemHeaderSize_le_changesetUserSizeOffset
  exact length_writeBytes (by simp only [length_fixedFields, length_encodeLE]; omega)

/-- An entity's body is whole alignment units: fixed part, user slot and padded sub-items. -/
theorem Entity.length_body_mod (e : Entity) : (e.body layout).length % alignBytes = 0 := by
  cases e with
  | object t u subs =>
    have hsubs := length_flatMap_padded_mod subs fun l => l.bytes layout
    have hF : (fixedFields layout t).length % alignBytes = 0 := length_fixedFields_mod t
    have hslot := length_padded_mod (encodeLE 2 (u.length + 1) ++ (u ++ [0]))
    simp only [Entity.body, List.length_append, length_written]
    unfold alignBytes at *
    omega
  | changeset u subs =>
    have hsubs := length_flatMap_padded_mod subs fun l => l.bytes layout
    have hF : (fixedFields layout .changeset).length % alignBytes = 0 := length_fixedFields_mod .changeset
    have hslot := length_padded_mod (u ++ [0])
    simp only [Entity.body, List.length_append, length_written, length_changesetFields]
    unfold alignBytes at *
    omega

/-- An entity's bytes are whole alignment units. -/
theorem Entity.length_bytes_mod (e : Entity) : (e.bytes layout).length % alignBytes = 0 := by
  rw [Entity.bytes, Cells.length_frame, Nat.add_mod, e.length_body_mod]
  rfl

end Lengths

end Document

/-! ## Bytes that fill the cells -/

section Fills

open Document

variable {data body : List UInt8} {cells : List (Option UInt8)}

theorem written_padded (bytes : List UInt8) : written (padded bytes) = Cells.padded (written bytes) := by
  simp [padded, Cells.padded]

theorem written_frame (t : ItemType) (bytes : List UInt8) : written (frame t bytes) = Cells.frame t (written bytes) := by
  simp [frame, Cells.frame]

theorem Memory.Fills.padded (h : Fills data cells) : Fills (padded data) (Cells.padded cells) := by
  rw [Document.padded, Cells.padded, h.length_eq]
  exact h.append (fills_written _)

theorem Memory.Fills.frame (h : Fills body cells) (t : ItemType) : Fills (frame t body) (Cells.frame t cells) := by
  rw [Document.frame, Cells.frame, h.length_eq]
  exact (fills_written _).append h

/-- Bytes that fill an item's cells are the item's header and bytes that fill its body. -/
theorem fills_frame_iff {t : ItemType} : Fills data (Cells.frame t cells) ↔ ∃ body, data = frame t body ∧ Fills body cells := by
  refine ⟨fun h => ?_, fun ⟨body, hdata, hbody⟩ => hdata ▸ hbody.frame t⟩
  obtain ⟨body, rfl, hbody⟩ := fills_written_append_iff.1 h
  exact ⟨body, by rw [Document.frame, hbody.length_eq], hbody⟩

end Fills

namespace Document

/-! ## The document's invariants -/

section Fits

/-- An entity's name is shorter than `std::numeric_limits<string_size_type>::max()`, as every
`set_user` that passes its assertion makes it. -/
def Entity.Fits (e : Entity) : Prop := e.user.length < 2 ^ 16 - 1

/-- Every full member of a member list has its padded bytes. -/
def ListItem.Fits : ListItem → Prop
  | .memberList members => ∀ c ∈ members, c.FullMemberFits
  | _ => True

/-- The open items fit. -/
def Open.Fits : Open → Prop
  | .empty => True
  | .top (.entity e) => e.Fits
  | .top (.list l) => l.Fits
  | .sub e l => e.Fits ∧ l.Fits

end Fits

/-! ## The calls -/

section Calls

namespace ListItem

/-- `add_tag`: on a tag list, for a call that passes its overload's checks. -/
def addTag (c : AddTagCall) : ListItem → Option ListItem
  | tagList tags => if c.admitted then some (tagList (tags ++ [(c.key, c.value)])) else none
  | _ => none

/-- `add_node_ref`: on a list of node references. -/
def addNodeRef (r : NodeRef) : ListItem → Option ListItem
  | nodeRefList t refs => some (nodeRefList t (refs ++ [r]))
  | _ => none

/-- `add_member`: on a member list, for a role that passes the length check. -/
def addMember (c : MemberCall) : ListItem → Option ListItem
  | memberList members => if c.role.length ≤ maxOsmStringLength then some (memberList (members ++ [c])) else none
  | _ => none

/-- `add_comment`: on a discussion with no comment pending, for a user name that passes the length
check; the comment is pending until its text comes. -/
def addComment (date uid : ℕ) (user : CString) : ListItem → Option ListItem
  | discussion comments none =>
    if user.bytes.length ≤ maxOsmStringLength then some (discussion comments (some ⟨date, uid, user.bytes⟩))
    else none
  | _ => none

/-- `add_comment_text`: on a discussion with a comment pending, for a text that passes the length
check; it finishes the comment. -/
def addCommentText (text : List UInt8) : ListItem → Option ListItem
  | discussion comments (some h) =>
    if text.length ≤ 2 ^ 32 - 2 then some (discussion (comments ++ [⟨h, text⟩]) none) else none
  | _ => none

/-- A collection may be finished: the destructor of a discussion asserts that no comment is
pending. -/
def closable : ListItem → Bool
  | discussion _ (some _) => false
  | _ => true

end ListItem

namespace Entity

/-- The entity with its name replaced. -/
def withUser (u : List UInt8) : Entity → Entity
  | object t _ subs => object t u subs
  | changeset _ subs => changeset u subs

/-- The entity with one more finished sub-item. -/
def addSub (l : ListItem) : Entity → Entity
  | object t u subs => object t u (subs ++ [l])
  | changeset u subs => changeset u (subs ++ [l])

/-- `set_user(user, length)`: the first `length` bytes of `user` become the name, before any name
and any sub-item. -/
def setUser (user : List UInt8) (length : ℕ) (e : Entity) : Option Entity :=
  if e.user.isEmpty && e.subs.isEmpty then some (e.withUser (user.take length)) else none

/-- `add_tags(tags)` of an object builder: a tag list of the pairs, when every key and value passes
the length check. -/
def addTags (tags : List (CString × CString)) : Entity → Option Entity
  | object t u subs =>
    if tags.all fun p => p.1.bytes.length ≤ maxOsmStringLength ∧ p.2.bytes.length ≤ maxOsmStringLength then
      some (object t u (subs ++ [.tagList (tags.map fun p => (p.1.bytes, p.2.bytes))]))
    else none
  | changeset _ _ => none

/-- `WayBuilder::add_node_refs(nodes)`: a way node list of the references, on a way. -/
def addNodeRefs (nodes : List NodeRef) : Entity → Option Entity
  | object t u subs => if t = .way then some (object t u (subs ++ [.nodeRefList .wayNodeList nodes])) else none
  | changeset _ _ => none

end Entity

namespace Open

/-- The innermost open item replaced by the collection `l'`, when it is a collection. -/
def withList (l' : ListItem) : Open → Open
  | top (.list _) => top (.list l')
  | sub e _ => sub e l'
  | o => o

/-- A collection opened at the top level, or on the entity open there. -/
def push (l : ListItem) : Open → Option Open
  | empty => some (top (.list l))
  | top (.entity e) => some (sub e l)
  | _ => none

/-- A call on the innermost open collection. -/
def updateList (f : ListItem → Option ListItem) : Open → Option Open
  | top (.list l) => (f l).map fun l' => top (.list l')
  | sub e l => (f l).map (sub e)
  | _ => none

/-- A call on the open entity, when nothing is open on it. -/
def updateEntity (f : Entity → Option Entity) : Open → Option Open
  | top (.entity e) => (f e).map fun e' => top (.entity e')
  | _ => none

end Open

/-- The innermost open item finished: a top-level one joins the finished items, a collection on an
entity joins the entity's sub-items. -/
def close (d : Document) : Option Document :=
  match d.current with
  | .empty => none
  | .top (.entity e) => some ⟨d.done ++ [.entity e], .empty⟩
  | .top (.list l) => if l.closable then some ⟨d.done ++ [.list l], .empty⟩ else none
  | .sub e l => if l.closable then some ⟨d.done, .top (.entity (e.addSub l))⟩ else none

/-- The document with other open items. -/
def withCurrent (d : Document) (current : Open) : Document := ⟨d.done, current⟩

/-- One call: an entity constructed at the top level, a collection constructed there or on the
entity open there, a call on the innermost open item, or its destructor; `none` when the code's
checks fail or the call breaks the nesting. -/
def step (d : Document) : Op → Option Document
  | .newObject t => match d.current with
    | .empty => some (d.withCurrent (.top (.entity (.object t [] []))))
    | _ => none
  | .newChangeset => match d.current with
    | .empty => some (d.withCurrent (.top (.entity (.changeset [] []))))
    | _ => none
  | .newTagList => (d.current.push (.tagList [])).map d.withCurrent
  | .newNodeRefList t => (d.current.push (.nodeRefList t [])).map d.withCurrent
  | .newMemberList => (d.current.push (.memberList [])).map d.withCurrent
  | .newDiscussion => (d.current.push (.discussion [] none)).map d.withCurrent
  | .setUser user length => (d.current.updateEntity (Entity.setUser user length)).map d.withCurrent
  | .addTag c => (d.current.updateList (ListItem.addTag c)).map d.withCurrent
  | .addNodeRef r => (d.current.updateList (ListItem.addNodeRef r)).map d.withCurrent
  | .addMember type ref role fullMember =>
    (d.current.updateList (ListItem.addMember ⟨type, ref, role, fullMember⟩)).map d.withCurrent
  | .addComment date uid user => (d.current.updateList (ListItem.addComment date uid user)).map d.withCurrent
  | .addCommentText text => (d.current.updateList (ListItem.addCommentText text)).map d.withCurrent
  | .addTags tags => (d.current.updateEntity (Entity.addTags tags)).map d.withCurrent
  | .addNodeRefs nodes => (d.current.updateEntity (Entity.addNodeRefs nodes)).map d.withCurrent
  | .close => d.close

/-- Calls one after the other; `none` once one fails. -/
def run : Document → List Op → Option Document
  | d, [] => some d
  | d, op :: ops => (d.step op).bind (run · ops)

end Calls

/-! ## What the calls leave of an entity -/

section Results

variable {layout : Layout}

namespace Entity

@[simp]
theorem type_addSub (e : Entity) (l : ListItem) : (e.addSub l).type = e.type := by
  cases e <;> rfl

@[simp]
theorem user_addSub (e : Entity) (l : ListItem) : (e.addSub l).user = e.user := by
  cases e <;> rfl

/-- `set_user` on an entity with a name or a sub-item is rejected. -/
theorem setUser_of_named (e : Entity) (hguard : ¬(e.user = [] ∧ e.subs = [])) (user : List UInt8)
    (length : ℕ) : e.setUser user length = none := by
  rw [setUser, if_neg (by simpa only [Bool.and_eq_true, List.isEmpty_eq_true] using hguard)]

/-- A finished collection is padded after the entity's other bytes. -/
theorem body_addSub (e : Entity) (l : ListItem) :
    (e.addSub l).body layout = e.body layout ++ Cells.padded (l.bytes layout) := by
  cases e <;> simp [addSub, body, List.flatMap_append]

/-- Bytes that fill an entity's body, then a collection's bytes padded, fill the body of the entity with
the collection. -/
theorem fills_addSub {e : Entity} {l : ListItem} {body bytes : List UInt8} (h : Fills body (e.body layout))
    (hl : Fills bytes (l.bytes layout)) : Fills (body ++ padded bytes) ((e.addSub l).body layout) := by
  rw [body_addSub]
  exact h.append hl.padded

/-- An entity whose cells are all written: bytes equal to them are its header and bytes that fill its
body. -/
theorem exists_body_of_written {e : Entity} {data bytes : List UInt8} (he : e.bytes layout = written bytes)
    (hdata : data = bytes) : ∃ body, data = frame e.type body ∧ Fills body (e.body layout) :=
  fills_frame_iff.1 (show Fills data (e.bytes layout) by rw [he]; exact fills_written_iff.2 hdata)

/-- An entity whose cells are all written: its header and bytes that fill its body are those bytes. -/
theorem eq_of_fills_written {e : Entity} {data body bytes : List UInt8} (he : e.bytes layout = written bytes)
    (hdata : data = frame e.type body) (hbody : Fills body (e.body layout)) : data = bytes := by
  rw [← fills_written_iff, ← he, hdata]
  exact hbody.frame e.type

end Entity

end Results

end Document

end Osmium
