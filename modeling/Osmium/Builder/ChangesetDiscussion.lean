import Osmium.Builder.Members

/-!
# Changeset discussions

`ChangesetDiscussionBuilder` appends a changeset's discussion: a sequence of comments, each a
`ChangesetComment` record, the user name with a zero byte, and the text with a zero byte, padded to
`align_bytes`. A comment is written in two calls: `add_comment(date, uid, user)` reserves the
record, keeps a raw pointer to it in `m_comment` and appends the user name; `add_comment_text(text)`
clears `m_comment`, sets the record's `text_size` through the pointer and appends the text. The
builder asserts that the calls alternate, and its destructor asserts that no comment is pending.

The pointer is kept across `add_user`'s `append_with_zero`, which may relocate the buffer's
storage. When it does not, the record gets its `text_size` (`addCommentText_textSize_of_fits`); when
it does, `add_comment_text` stores `text_size` into released storage and the record in the buffer
keeps the `text_size` of zero that `add_comment` wrote (`addCommentText_textSize_of_relocated`).

`add_comment` also sets `m_comment` before `add_user` checks the user name's length, so when that
check throws, a comment is left pending and destroying the builder fails its assertion
(`addComment_leaves_comment_pending`).

Modelled from the spec: the record layout of `osmium/osm/changeset.hpp` is not part of the sources
modelled here. A `ChangesetComment` is the date (the 32-bit `osmium::Timestamp`), the user id (the
32-bit `user_id_type`), `text_size` (the 32-bit `changeset_comment_size_type`), `user_size` (the
16-bit `string_size_type`) and two bytes of padding. `new (m_comment) ChangesetComment{date, uid}`
writes the fields and not the padding, which keeps what the reservation held
(`changesetCommentRecord`).
-/

namespace Osmium

open Memory

/-- `sizeof(osmium::ChangesetComment)`. -/
def changesetCommentSize : ℕ := 16

/-- Where `ChangesetComment::m_text_size` lies in the record. -/
def textSizeOffset : ℕ := 8

/-- Where `ChangesetComment::m_user_size` lies in the record. -/
def commentUserSizeOffset : ℕ := 12

/-- `ChangesetComment{date, uid}`: the fields its constructor writes, the date and the user id, and
sizes of zero. The record's last two bytes, padding after `user_size`, are not written. -/
def changesetCommentImage (date uid : ℕ) : List UInt8 :=
  encodeLE 4 date ++ encodeLE 4 uid ++ encodeLE 4 0 ++ encodeLE 2 0

@[simp]
theorem length_changesetCommentImage (date uid : ℕ) : (changesetCommentImage date uid).length = 14 := by
  simp [changesetCommentImage]

/-- The record `add_comment` reserves at `offset` once its constructor has run: the fields it writes,
then the two bytes of padding, which hold what fresh storage held there. -/
def changesetCommentRecord (a : Allocator) (offset date uid : ℕ) : List UInt8 :=
  changesetCommentImage date uid ++ Buffer.fresh a (offset + 14) 2

@[simp]
theorem length_changesetCommentRecord (a : Allocator) (offset date uid : ℕ) :
    (changesetCommentRecord a offset date uid).length = changesetCommentSize := by
  simp [changesetCommentRecord, changesetCommentSize]

/-- `new (m_comment) ChangesetComment{date, uid}` on the reservation `reserve_space_for` made: the
record follows the written part. -/
theorem reserveSpace_storeAt_changesetCommentImage (a : Allocator) (buf : Buffer) (date uid : ℕ) :
    ((buf.reserveSpace a changesetCommentSize).storeAt ((buf.reserveSpace a changesetCommentSize).ptr buf.data.length)
      (changesetCommentImage date uid)).data = buf.data ++ changesetCommentRecord a buf.data.length date uid := by
  rw [Buffer.storeAt_of_eq rfl, Buffer.ptr,
    Buffer.reserveSpace_write_prefix_data a buf (by simp [changesetCommentSize]), List.append_assoc]
  simp [changesetCommentRecord, changesetCommentSize]

/-- `osmium::builder::ChangesetDiscussionBuilder`, with `m_comment`, the pointer to the record of
the comment whose text is pending. -/
structure ChangesetDiscussionBuilder extends Builder where
  /-- `m_comment`; `none` is the null pointer. -/
  comment : Option Ptr

/-- The message the assertions of the comment protocol carry. -/
def commentProtocolMessage : String :=
  "You have to always call both add_comment() and then add_comment_text() in that order for each comment!"

section Builder

variable (layout : Layout) (a : Allocator)

namespace ChangesetDiscussionBuilder

/-- `ChangesetDiscussionBuilder(buffer, parent)`: `Builder(buffer, parent,
sizeof(ChangesetDiscussion))`, then `new (&item()) ChangesetDiscussion{}`; no comment is pending. -/
def make (buf : Buffer) (parent : Option Builder) : ChangesetDiscussionBuilder × Buffer :=
  let (b, buf₁) := Builder.make a buf parent (layout.sizeOf .changesetDiscussion)
  (⟨b, none⟩, buf₁.write b.itemOffset (layout.image .changesetDiscussion))

/-- `~ChangesetDiscussionBuilder()`: `assert(!m_comment && …)`, then `add_padding()`. -/
def destroy (db : ChangesetDiscussionBuilder) (buf : Buffer) : Except Failure Unit × Buffer :=
  if db.comment.isNone then (.ok (), db.addPadding a buf false)
  else (.error (.assertion commentProtocolMessage), buf)

/-- `add_user(comment, user, length)`: the length check, then
`comment.set_user_size(string_size_type(length) + 1)` through the pointer to the record and
`add_size(append_with_zero(user, length))`. -/
def addUser (db : ChangesetDiscussionBuilder) (buf : Buffer) (comment : Ptr) (user : List UInt8) :
    Except Failure Unit × Buffer :=
  if user.length > maxOsmStringLength then (.error (.lengthError "OSM user name is too long"), buf)
  else
    let buf₁ := buf.storeAt (comment.field commentUserSizeOffset) (encodeLE 2 (user.length % 2 ^ 16 + 1))
    let (size, buf₂) := appendWithZero a buf₁ user
    (.ok (), db.addSize buf₂ size)

/-- `add_text(comment, text, length)`: the check `length > max(changeset_comment_size_type) - 1`,
then `comment.set_text_size(changeset_comment_size_type(length) + 1)` through the pointer to the
record, `add_size(append_with_zero(text, length))` and `add_padding(true)`. -/
def addText (db : ChangesetDiscussionBuilder) (buf : Buffer) (comment : Ptr) (text : List UInt8) :
    Except Failure Unit × Buffer :=
  if text.length > 2 ^ 32 - 1 - 1 then (.error (.lengthError "OSM changeset comment is too long"), buf)
  else
    let buf₁ := buf.storeAt (comment.field textSizeOffset) (encodeLE 4 (text.length % 2 ^ 32 + 1))
    let (size, buf₂) := appendWithZero a buf₁ text
    (.ok (), db.addPadding a (db.addSize buf₂ size) true)

/-- `add_comment(date, uid, user)`: `assert(!m_comment && …)`; `m_comment` points to a reservation of
`sizeof(ChangesetComment)` holding `ChangesetComment{date, uid}`; `add_size(sizeof(ChangesetComment))`;
then `add_user(*m_comment, user, std::strlen(user))`. -/
def addComment (db : ChangesetDiscussionBuilder) (buf : Buffer) (date uid : ℕ) (user : CString) :
    Except Failure Unit × ChangesetDiscussionBuilder × Buffer :=
  if db.comment.isSome then (.error (.assertion commentProtocolMessage), db, buf)
  else
    let buf₁ := buf.reserveSpace a changesetCommentSize
    let comment := buf₁.ptr buf.data.length
    let buf₂ := buf₁.storeAt comment (changesetCommentImage date uid)
    let db₁ := { db with comment := some comment }
    let (r, buf₃) := db₁.addUser a (db₁.addSize buf₂ changesetCommentSize) comment user.bytes
    (r, db₁, buf₃)

/-- The body the two `add_comment_text` overloads share: `assert(m_comment && …)`, take the pending
record and clear `m_comment`, then `add_text` through the pointer. -/
def addCommentTextWith (db : ChangesetDiscussionBuilder) (buf : Buffer) (text : List UInt8) :
    Except Failure Unit × ChangesetDiscussionBuilder × Buffer :=
  match db.comment with
  | none => (.error (.assertion commentProtocolMessage), db, buf)
  | some comment =>
    let db₁ := { db with comment := none }
    let (r, buf₁) := db₁.addText a buf comment text
    (r, db₁, buf₁)

/-- `add_comment_text(const char* text)`: `add_text(comment, text, std::strlen(text))`. -/
def addCommentText (db : ChangesetDiscussionBuilder) (buf : Buffer) (text : CString) :
    Except Failure Unit × ChangesetDiscussionBuilder × Buffer :=
  db.addCommentTextWith a buf text.bytes

/-- `add_comment_text(const std::string& text)`: `add_text(comment, text.c_str(), text.size())`. -/
def addCommentTextString (db : ChangesetDiscussionBuilder) (buf : Buffer) (text : List UInt8) :
    Except Failure Unit × ChangesetDiscussionBuilder × Buffer :=
  db.addCommentTextWith a buf text

end ChangesetDiscussionBuilder

end Builder

/-! ### The comment records -/

section Records

variable {a : Allocator} {db : ChangesetDiscussionBuilder} {buf : Buffer} {k : ℕ}

/-- The record of a comment once `add_user` has set its `user_size`. -/
theorem writeBytes_changesetCommentRecord (offset date uid userSize : ℕ) :
    writeBytes (changesetCommentRecord a offset date uid) commentUserSizeOffset (encodeLE 2 userSize) =
      encodeLE 4 date ++ encodeLE 4 uid ++ encodeLE 4 0 ++ encodeLE 2 userSize ++ Buffer.fresh a (offset + 14) 2 := by
  simp [writeBytes, changesetCommentRecord, changesetCommentImage, commentUserSizeOffset]

/-- `add_user` for a name that passes its check, through a pointer into the current storage: it
sets the record's `user_size` to the name's length plus one, appends the name with a zero byte and
adds them to the size. -/
theorem addUser_eq {comment : Ptr} (hcur : comment.generation = buf.generation) {user : List UInt8}
    (huser : user.length ≤ maxOsmStringLength) :
    db.addUser a buf comment user =
      (.ok (), db.addSize (appendWithZero a (buf.write (comment.offset + commentUserSizeOffset)
        (encodeLE 2 (user.length + 1))) user).2 (user.length + 1)) := by
  have hL : user.length % 2 ^ 16 = user.length := Nat.mod_eq_of_lt (by unfold maxOsmStringLength at huser; omega)
  simp only [ChangesetDiscussionBuilder.addUser, gt_iff_lt, Nat.not_lt.2 huser, if_false, hL,
    Buffer.storeAt_of_eq (show (comment.field commentUserSizeOffset).generation = buf.generation from hcur)]
  rfl

/-- What `add_user` leaves, seen from an offset `k` at or before the record: the record's
`user_size` set, then the name and a zero byte; the appended bytes may relocate the storage. -/
theorem addUser_ok (hb : db.ItemsBefore k) (hk : k ≤ buf.data.length) {comment : Ptr}
    (hcur : comment.generation = buf.generation) (hkc : k ≤ comment.offset)
    (hin : comment.offset + changesetCommentSize ≤ buf.data.length) {user : List UInt8}
    (huser : user.length ≤ maxOsmStringLength) :
    let r := db.addUser a buf comment user
    r.1 = .ok () ∧
      r.2.data.drop k = writeBytes (buf.data.drop k) (comment.offset - k + commentUserSizeOffset)
        (encodeLE 2 (user.length + 1)) ++ (user ++ [0]) ∧
      r.2.data.length = buf.data.length + (user.length + 1) ∧
      r.2.generation = (buf.reserveSpace a (user.length + 1)).generation ∧
      r.2.capacity = (buf.reserveSpace a (user.length + 1)).capacity := by
  have hlen₁ : (buf.write (comment.offset + commentUserSizeOffset) (encodeLE 2 (user.length + 1))).data.length =
      buf.data.length := by
    refine length_writeBytes ?_
    simp only [length_encodeLE]; unfold commentUserSizeOffset changesetCommentSize at *; omega
  have hitems : db.ItemsBefore (appendWithZero a (buf.write (comment.offset + commentUserSizeOffset)
      (encodeLE 2 (user.length + 1))) user).2.data.length := fun o ho => by
    rw [length_appendWithZero, hlen₁]; exact (hb o ho).trans (by omega)
  rw [addUser_eq hcur huser]
  refine ⟨rfl, ?_, ?_, ?_, ?_⟩
  · rw [drop_addSize_of_itemsBefore hb, drop_appendWithZero a (hlen₁ ▸ hk),
      drop_write_of_le _ (by omega) hk, Nat.sub_add_comm hkc]
  · rw [length_addSize hitems, length_appendWithZero, hlen₁]
  · simp only [Builder.addSize_generation, appendWithZero_generation, Buffer.reserveSpace_generation,
      hlen₁, Buffer.write_generation, Buffer.write_capacity]
  · simp only [Builder.addSize_capacity, appendWithZero_capacity, Buffer.reserveSpace, hlen₁,
      Buffer.write_generation, Buffer.write_capacity]
    split <;> rfl

/-- `add_comment` with no comment pending and a user name that passes its check: the builder points
to the new record, which holds the date, the user id, a `text_size` of zero and the user name's
length plus one as `user_size`, then its padding as fresh storage held it, and is followed by the
name and a zero byte. Appending the name
relocates the storage exactly when it does not fit the storage the record was reserved in. -/
theorem addComment_ok (hdb : db.comment = none) (hb : db.ItemsBefore buf.data.length) (date uid : ℕ)
    {user : CString} (huser : user.bytes.length ≤ maxOsmStringLength) :
    let r := db.addComment a buf date uid user
    let buf₁ := buf.reserveSpace a changesetCommentSize
    r.1 = .ok () ∧ r.2.1 = { db with comment := some (buf₁.ptr buf.data.length) } ∧
      r.2.2.data.drop buf.data.length =
        encodeLE 4 date ++ encodeLE 4 uid ++ encodeLE 4 0 ++ encodeLE 2 (user.bytes.length + 1) ++
          Buffer.fresh a (buf.data.length + 14) 2 ++ (user.bytes ++ [0]) ∧
      r.2.2.data.length = buf.data.length + changesetCommentSize + (user.bytes.length + 1) ∧
      r.2.2.generation =
        if buf.data.length + changesetCommentSize + (user.bytes.length + 1) ≤ buf₁.capacity then buf₁.generation
        else buf₁.generation + 1 := by
  intro r buf₁
  let db₁ : ChangesetDiscussionBuilder := { db with comment := some (buf₁.ptr buf.data.length) }
  let buf₂ := buf₁.storeAt (buf₁.ptr buf.data.length) (changesetCommentImage date uid)
  have hdata₂ : buf₂.data = buf.data ++ changesetCommentRecord a buf.data.length date uid :=
    reserveSpace_storeAt_changesetCommentImage a buf date uid
  have hlen₃ : (db₁.addSize buf₂ changesetCommentSize).data.length = buf.data.length + changesetCommentSize := by
    rw [length_addSize (fun o ho => by rw [hdata₂]; simp only [List.length_append]; exact (hb o ho).trans (by omega)),
      hdata₂, List.length_append, length_changesetCommentRecord]
  have hdrop₃ : (db₁.addSize buf₂ changesetCommentSize).data.drop buf.data.length =
      changesetCommentRecord a buf.data.length date uid := by
    rw [drop_addSize_of_itemsBefore hb, hdata₂, List.drop_left]
  obtain ⟨h1, h2, h3, h4, -⟩ := @addUser_ok a db₁ (db₁.addSize buf₂ changesetCommentSize) buf.data.length hb
    (by omega) (buf₁.ptr buf.data.length) (by simp [buf₂]) le_rfl hlen₃.symm.le user.bytes huser
  have hr : r = ((db₁.addUser a (db₁.addSize buf₂ changesetCommentSize) (buf₁.ptr buf.data.length) user.bytes).1,
      db₁, (db₁.addUser a (db₁.addSize buf₂ changesetCommentSize) (buf₁.ptr buf.data.length) user.bytes).2) := by
    simp only [r, ChangesetDiscussionBuilder.addComment, hdb, Option.isSome_none, Bool.false_eq_true, if_false]
  rw [hr]
  refine ⟨h1, rfl, ?_, ?_, ?_⟩
  · rw [h2, hdrop₃, Buffer.ptr, Nat.sub_self, Nat.zero_add, writeBytes_changesetCommentRecord]
  · rw [h3, hlen₃]
  · rw [h4, Buffer.reserveSpace_generation, hlen₃]
    simp [buf₂]

/-- The `text_size` field of a comment record. -/
theorem decodeLE_textSize (date uid textSize : ℕ) (rest : List UInt8) :
    decodeLE (((encodeLE 4 date ++ (encodeLE 4 uid ++ (encodeLE 4 textSize ++ rest))).drop textSizeOffset).take 4) =
      textSize % 2 ^ 32 := by
  have h8 : (encodeLE 4 date ++ encodeLE 4 uid).length = textSizeOffset := by simp [textSizeOffset]
  rw [← List.append_assoc, List.drop_left' h8, List.take_left' (length_encodeLE 4 _), decodeLE_encodeLE, two_pow_32]

/-- `set_text_size(n)` on a comment record. -/
theorem writeBytes_textSize (date uid n : ℕ) (rest : List UInt8) :
    writeBytes (encodeLE 4 date ++ (encodeLE 4 uid ++ (encodeLE 4 0 ++ rest))) textSizeOffset (encodeLE 4 n) =
      encodeLE 4 date ++ (encodeLE 4 uid ++ (encodeLE 4 n ++ rest)) := by
  have h8 : (encodeLE 4 date ++ encodeLE 4 uid).length = textSizeOffset := by simp [textSizeOffset]
  rw [← List.append_assoc, writeBytes_append_right h8.ge, h8, Nat.sub_self, writeBytes_zero, length_encodeLE,
    List.drop_left' (length_encodeLE 4 0), List.append_assoc]

/-- `add_text` for a text that passes its check: `text_size` is stored through the pointer, which
reaches the buffer only if the pointer is into the current storage; then the text and a zero byte
are appended, added to the size, and the item is padded, counting the padding in its size. -/
theorem addText_eq {comment : Ptr} {text : List UInt8} (htext : text.length ≤ 2 ^ 32 - 2) :
    db.addText a buf comment text =
      (.ok (), db.addPadding a (db.addSize (appendWithZero a (buf.storeAt (comment.field textSizeOffset)
        (encodeLE 4 (text.length + 1))) text).2 (text.length + 1)) true) := by
  have hT : text.length % 2 ^ 32 = text.length := Nat.mod_eq_of_lt (by omega)
  simp only [ChangesetDiscussionBuilder.addText, gt_iff_lt, Nat.not_lt.2 (show text.length ≤ 2 ^ 32 - 1 - 1 by omega),
    if_false, hT]
  rfl

end Records

section TextSize

variable (a : Allocator)

/-- A comment whose record and user name fit the storage the discussion is in: nothing is relocated,
so `add_comment_text` stores `text_size` in the record, the text's length plus one. -/
theorem addCommentText_textSize_of_fits {db : ChangesetDiscussionBuilder} (hdb : db.comment = none)
    {buf : Buffer} (hb : db.ItemsBefore buf.data.length) (date uid : ℕ) {user text : CString}
    (huser : user.bytes.length ≤ maxOsmStringLength) (htext : text.bytes.length ≤ 2 ^ 32 - 2)
    (hfits : buf.data.length + changesetCommentSize + (user.bytes.length + 1) ≤ buf.capacity) :
    let r₁ := db.addComment a buf date uid user
    let r₂ := r₁.2.1.addCommentText a r₁.2.2 text
    r₁.1 = .ok () ∧ r₂.1 = .ok () ∧ readLE r₂.2.2.data (buf.data.length + textSizeOffset) 4 = text.bytes.length + 1 := by
  intro r₁ r₂
  have hfits₁ : buf.data.length + changesetCommentSize ≤ buf.capacity := by omega
  obtain ⟨h1, h2, h3, h4, h5⟩ := addComment_ok (a := a) hdb hb date uid huser
  have hgen₁ := Buffer.reserveSpace_generation_of_le a hfits₁
  rw [Buffer.reserveSpace_capacity_of_le a hfits₁, if_pos hfits, hgen₁] at h5
  let db' : ChangesetDiscussionBuilder := { db with comment := none }
  let comment := (buf.reserveSpace a changesetCommentSize).ptr buf.data.length
  have hr₂ : r₂ = ((db'.addText a r₁.2.2 comment text.bytes).1, db', (db'.addText a r₁.2.2 comment text.bytes).2) := by
    simp only [r₂, r₁, ChangesetDiscussionBuilder.addCommentText, ChangesetDiscussionBuilder.addCommentTextWith, h2]
  rw [hr₂, addText_eq htext, Buffer.storeAt_of_eq (by rw [h5]; simp [comment, Buffer.ptr, Ptr.field, hgen₁])]
  refine ⟨h1, rfl, ?_⟩
  -- the store through `m_comment`, then the text, the size and the padding
  have hk : buf.data.length ≤ r₁.2.2.data.length := by rw [h4]; omega
  have hfield : (comment.field textSizeOffset).offset = buf.data.length + textSizeOffset := rfl
  have hlen₁ : (r₁.2.2.write (comment.field textSizeOffset).offset (encodeLE 4 (text.bytes.length + 1))).data.length =
      r₁.2.2.data.length :=
    length_writeBytes (by rw [hfield, length_encodeLE, h4]; unfold textSizeOffset changesetCommentSize; omega)
  have hitems : db'.ItemsBefore (appendWithZero a (r₁.2.2.write (comment.field textSizeOffset).offset
      (encodeLE 4 (text.bytes.length + 1))) text.bytes).2.data.length := fun o ho => by
    rw [length_appendWithZero, hlen₁]; exact (hb o ho).trans (by omega)
  have hdrop := @drop_addPadding a (db'.addSize (appendWithZero a (r₁.2.2.write (comment.field textSizeOffset).offset
    (encodeLE 4 (text.bytes.length + 1))) text.bytes).2 (text.bytes.length + 1)) buf.data.length db'.toBuilder hb
    (by rw [length_addSize hitems, length_appendWithZero, hlen₁]; omega) true
  have hsub : (comment.field textSizeOffset).offset - buf.data.length = textSizeOffset := by
    rw [hfield, Nat.add_sub_cancel_left]
  rw [drop_addSize_of_itemsBefore hb, drop_appendWithZero a (hlen₁ ▸ hk), drop_write_of_le _ (by omega) hk, h3,
    hsub] at hdrop
  simp only [List.append_assoc, writeBytes_textSize] at hdrop
  rw [readLE_add_of_drop_eq hdrop, decodeLE_textSize]
  exact Nat.mod_eq_of_lt (by omega)

end TextSize

/-! ### A pending comment across a relocation and a failed call -/

section PendingComments

variable (a : Allocator)

/-- A comment whose user name does not fit the storage its record was reserved in: `add_comment`
and `add_comment_text` both succeed, but `add_user`'s append relocates the storage, so
`add_comment_text` stores `text_size` through the stale `m_comment`, and the record in the buffer
keeps a `text_size` of zero instead of the text's length plus one. -/
theorem addCommentText_textSize_of_relocated {db : ChangesetDiscussionBuilder} (hdb : db.comment = none)
    {buf : Buffer} (hb : db.ItemsBefore buf.data.length) (date uid : ℕ) {user text : CString}
    (huser : user.bytes.length ≤ maxOsmStringLength) (htext : text.bytes.length ≤ 2 ^ 32 - 2)
    (hfits : buf.data.length + changesetCommentSize ≤ buf.capacity)
    (hrelocates : buf.capacity < buf.data.length + changesetCommentSize + (user.bytes.length + 1)) :
    let r₁ := db.addComment a buf date uid user
    let r₂ := r₁.2.1.addCommentText a r₁.2.2 text
    r₁.1 = .ok () ∧ r₂.1 = .ok () ∧ readLE r₂.2.2.data (buf.data.length + textSizeOffset) 4 = 0 := by
  intro r₁ r₂
  obtain ⟨h1, h2, h3, h4, h5⟩ := addComment_ok (a := a) hdb hb date uid huser
  have hgen₁ := Buffer.reserveSpace_generation_of_le a hfits
  have hcap₁ := Buffer.reserveSpace_capacity_of_le a hfits
  rw [hcap₁, if_neg (Nat.not_le.2 hrelocates), hgen₁] at h5
  let db' : ChangesetDiscussionBuilder := { db with comment := none }
  have hr₂ : r₂ = ((db'.addText a r₁.2.2 ((buf.reserveSpace a changesetCommentSize).ptr buf.data.length)
      text.bytes).1, db', (db'.addText a r₁.2.2 ((buf.reserveSpace a changesetCommentSize).ptr buf.data.length)
      text.bytes).2) := by
    simp only [r₂, r₁, ChangesetDiscussionBuilder.addCommentText, ChangesetDiscussionBuilder.addCommentTextWith, h2]
  rw [hr₂, addText_eq htext, Buffer.storeAt_of_ne (by rw [h5]; simp [Buffer.ptr, Ptr.field, hgen₁])]
  refine ⟨h1, rfl, ?_⟩
  have hk : buf.data.length ≤ r₁.2.2.data.length := by rw [h4]; omega
  have hitems : db'.ItemsBefore (appendWithZero a r₁.2.2 text.bytes).2.data.length := fun o ho => by
    rw [length_appendWithZero]; exact (hb o ho).trans (by omega)
  have hdrop := @drop_addPadding a (db'.addSize (appendWithZero a r₁.2.2 text.bytes).2 (text.bytes.length + 1))
    buf.data.length db'.toBuilder hb (by rw [length_addSize hitems, length_appendWithZero]; omega) true
  rw [drop_addSize_of_itemsBefore hb, drop_appendWithZero a hk, h3] at hdrop
  simp only [List.append_assoc] at hdrop
  rw [readLE_add_of_drop_eq hdrop, decodeLE_textSize, Nat.zero_mod]

/-- A user name of forty bytes `a`. -/
def sampleUser : CString := ⟨List.replicate 40 0x61, by decide⟩

/-- The text `x`. -/
def sampleText : CString := ⟨[0x78], by decide⟩

/-- `addCommentText_textSize_of_relocated` on a top-level discussion in an empty buffer of
capacity 64: the record fits, the forty-byte user name does not. -/
theorem addCommentText_textSize_of_relocated_sample :
    let made := ChangesetDiscussionBuilder.make Layout.amd64 Allocator.sample ⟨[], 64, 0⟩ none
    made.1.comment = none ∧ made.1.ItemsBefore made.2.data.length ∧
      sampleUser.bytes.length ≤ maxOsmStringLength ∧ sampleText.bytes.length ≤ 2 ^ 32 - 2 ∧
      made.2.data.length + changesetCommentSize ≤ made.2.capacity ∧
      made.2.capacity < made.2.data.length + changesetCommentSize + (sampleUser.bytes.length + 1) ∧
      (let r₁ := made.1.addComment Allocator.sample made.2 0 0 sampleUser
       let r₂ := r₁.2.1.addCommentText Allocator.sample r₁.2.2 sampleText
       r₁.1 = .ok () ∧ r₂.1 = .ok () ∧ readLE r₂.2.2.data (made.2.data.length + textSizeOffset) 4 = 0) :=
  ⟨rfl, by decide, by decide, by decide, by decide, by decide,
    addCommentText_textSize_of_relocated Allocator.sample rfl (by decide) 0 0 (by decide) (by decide)
      (by decide) (by decide)⟩

/-- `add_comment` with a user name longer than `max_osm_string_length`, on a builder with no comment
pending: the call throws `std::length_error`, but `m_comment` was set before `add_user` checked the
name, so the comment stays pending and destroying the builder fails its assertion. -/
theorem addComment_leaves_comment_pending {db : ChangesetDiscussionBuilder} (hdb : db.comment = none)
    (buf : Buffer) (date uid : ℕ) {user : CString} (hlong : maxOsmStringLength < user.bytes.length) :
    let r := db.addComment a buf date uid user
    r.1 = .error (.lengthError "OSM user name is too long") ∧ r.2.1.comment.isSome ∧
      (r.2.1.destroy a r.2.2).1 = .error (.assertion commentProtocolMessage) := by
  have hcheck : user.bytes.length > maxOsmStringLength := hlong
  simp only [ChangesetDiscussionBuilder.addComment, hdb, Option.isSome_none, Bool.false_eq_true, if_false,
    ChangesetDiscussionBuilder.addUser, hcheck, if_true]
  exact ⟨trivial, rfl, rfl⟩

/-- A user name of 1025 bytes `a`, one more than `max_osm_string_length`. -/
def longUser : CString := ⟨List.replicate 1025 0x61, by simp only [List.mem_replicate]; decide⟩

/-- `addComment_leaves_comment_pending` on a new top-level discussion. -/
theorem addComment_leaves_comment_pending_sample :
    let made := ChangesetDiscussionBuilder.make Layout.amd64 Allocator.sample ⟨[], 64, 0⟩ none
    made.1.comment = none ∧ maxOsmStringLength < longUser.bytes.length ∧
      (let r := made.1.addComment Allocator.sample made.2 0 0 longUser
       r.1 = .error (.lengthError "OSM user name is too long") ∧ r.2.1.comment.isSome ∧
        (r.2.1.destroy Allocator.sample r.2.2).1 = .error (.assertion commentProtocolMessage)) :=
  ⟨rfl, by simp only [longUser, List.length_replicate]; decide,
    addComment_leaves_comment_pending Allocator.sample rfl _ 0 0
      (by simp only [longUser, List.length_replicate]; decide)⟩

end PendingComments

end Osmium
