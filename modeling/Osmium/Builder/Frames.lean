import Osmium.Builder.Document

/-!
# What each call leaves at its builder's item

The bytes a builder call leaves, stated in the terms of `Osmium.Builder.Document`. A call rewrites
only its own item after the header, appends after the written part, and updates the size fields of
the items it is in; with every open item's size counting its bytes to the end, that determines the
open items' bytes. This file proves:

- `drop_frames`: items nested in one another, rebuilt from the bytes a call kept and the sizes it
  left;
- `drop_frame_of_appends`: an item at the end of the written part goes on with what a call appended;
- one lemma per call for the bytes it leaves at its builder's item: `add_node_ref`
  (`NodeRefListBuilder.drop_foldl_addNodeRef`), `add_comment`
  (`ChangesetDiscussionBuilder.drop_addComment`), `add_comment_text`
  (`ChangesetDiscussionBuilder.drop_addCommentTextWith`), a list builder's destructor
  (`Builder.drop_addPadding_padded`), `add_tags` (`OSMObjectBuilder.drop_addTags`, and when it
  throws `OSMObjectBuilder.addTags_of_long_prefix`) and `add_node_refs`
  (`OSMObjectBuilder.drop_addNodeRefs`);
- the document's cells of an object or changeset with no sub-item, before and after `set_user`: every
  one written, in the form the constructors and `set_user` write them (`Entity.bytes_object_nil`,
  `Entity.bytes_object_user` and their changeset counterparts), and where `user_size` reads in any bytes
  that fill them (`Entity.readLE_userSize_object`, `Entity.readLE_userSize_changeset`).

The list builders' lemmas state the bytes themselves: a tag list and a node list have no padding
inside, so the call determines every byte it leaves.
-/

namespace Osmium

open Memory Document

/-! ## Items framed in items -/

section Bytes

theorem uint8_ofNat_toNat_add (b : UInt8) (d : ℕ) : UInt8.ofNat (b.toNat + 256 * d) = b := by
  apply UInt8.eq_of_val_eq
  apply Fin.ext
  have hb : b.toNat < 256 := b.val.isLt
  show (b.toNat + 256 * d) % 256 = b.toNat
  omega

/-- Bytes read as a little-endian field and stored again are the same bytes. -/
theorem encodeLE_decodeLE {bytes : List UInt8} {width : ℕ} (h : bytes.length = width) :
    encodeLE width (decodeLE bytes) = bytes := by
  subst h
  induction bytes with
  | nil => rfl
  | cons b bs ih =>
    have hb : b.toNat < 256 := b.val.isLt
    rw [List.length_cons, encodeLE_succ, decodeLE_cons, uint8_ofNat_toNat_add,
      show (b.toNat + 256 * decodeLE bs) / 256 = decodeLE bs by omega, ih]

/-- Two byte sequences that agree on `n` positions from `k` hold the same `n` bytes there. -/
theorem readBytes_congr {data data' : List UInt8} {k n : ℕ} (h : ∀ i, k ≤ i → i < k + n → data'[i]? = data[i]?) :
    readBytes data' k n = readBytes data k n := by
  refine List.ext_getElem? fun j => ?_
  rw [readBytes, readBytes, List.getElem?_take, List.getElem?_take, List.getElem?_drop, List.getElem?_drop]
  split
  · exact h (k + j) (Nat.le_add_right _ _) (by omega)
  · rfl

/-- The bytes from `k` on are the `n` bytes at `k` and those from `k + n` on. -/
theorem drop_eq_readBytes_append (data : List UInt8) (k n : ℕ) :
    data.drop k = readBytes data k n ++ data.drop (k + n) := by
  rw [readBytes, ← List.drop_drop, List.take_append_drop]

/-- Items nested in one another, outermost first, each given by its kind and its bytes after the
header up to the next one; each header counts the bytes up to the end, and `tail` comes last. -/
def frames : List (ItemType × List UInt8) → List UInt8 → List UInt8
  | [], tail => tail
  | (t, body) :: fs, tail => frame t (body ++ frames fs tail)

/-- Where the items of `frames fs tail` start, the outermost at `o`. -/
def frameOffsets : ℕ → List (ItemType × List UInt8) → List ℕ
  | _, [] => []
  | o, (_, body) :: fs => o :: frameOffsets (o + itemHeaderSize + body.length) fs

theorem length_frames (fs : List (ItemType × List UInt8)) (tail : List UInt8) :
    (frames fs tail).length = (frames fs []).length + tail.length := by
  induction fs with
  | nil => simp [frames]
  | cons f fs ih => simp only [frames, length_frame, List.length_append, ih]; omega

theorem frameOffsets_ge {o c : ℕ} {fs : List (ItemType × List UInt8)} (hc : c ∈ frameOffsets o fs) : o ≤ c := by
  induction fs generalizing o with
  | nil => cases hc
  | cons f fs ih =>
    rcases List.mem_cons.1 hc with rfl | hc
    · exact le_rfl
    · exact (Nat.le_add_right _ _).trans ((Nat.le_add_right _ _).trans (ih hc))

/-- The open items after a call, from what it kept: where the outermost starts, every byte but the
size fields, up to the innermost item's header end, is as before; every size field counts the bytes up
to the new end; and what follows is `tail'`. Then the items are the same, around `tail'`. -/
theorem drop_frames {data data' tail tail' : List UInt8} (fs : List (ItemType × List UInt8)) {o : ℕ}
    (hold : data.drop o = frames fs tail)
    (hkeep : ∀ i, o ≤ i → i < o + (frames fs []).length → (∀ c ∈ frameOffsets o fs, i < c ∨ c + 4 ≤ i) →
      data'[i]? = data[i]?)
    (hsize : ∀ c ∈ frameOffsets o fs, byteSize data' c = (data'.length - c) % 2 ^ 32)
    (htail : data'.drop (o + (frames fs []).length) = tail') :
    data'.drop o = frames fs tail' := by
  induction fs generalizing o with
  | nil => simpa [frames] using htail
  | cons f fs ih =>
    obtain ⟨t, body⟩ := f
    have h8 : itemHeaderSize = 8 := rfl
    have hL := length_frames fs []
    simp only [frames, frame, List.length_append, length_itemHeader, List.length_nil, Nat.add_zero] at hold hkeep htail
    -- the inner items
    have hold' : data.drop (o + itemHeaderSize + body.length) = frames fs tail := by
      rw [show o + itemHeaderSize + body.length = o + (itemHeaderSize + body.length) by omega, ← List.drop_drop, hold,
        ← List.append_assoc, List.drop_left' (by simp)]
    have hinner := ih hold'
      (fun i hi hi' hc => hkeep i (by omega) (by omega) fun c hc' => by
        rcases List.mem_cons.1 hc' with rfl | hc'
        · exact .inr (by omega)
        · exact hc c hc')
      (fun c hc => hsize c (List.mem_cons_of_mem _ hc)) (by rw [← htail]; congr 1; omega)
    -- the header's last four bytes and the body, kept
    have hmid : readBytes data' (o + 4) (4 + body.length) = encodeLE 2 t.code ++ [0, 0] ++ body := by
      rw [readBytes_congr fun i hi hi' => hkeep i (by omega) (by omega) fun c hc => by
        rcases List.mem_cons.1 hc with rfl | hc
        · exact .inr hi
        · exact .inl (by have := frameOffsets_ge hc; omega)]
      rw [readBytes, ← List.drop_drop 4 o, hold, itemHeader,
        show ∀ N, encodeLE 4 N ++ encodeLE 2 t.code ++ [0, 0] ++ (body ++ frames fs tail) =
          encodeLE 4 N ++ ((encodeLE 2 t.code ++ [0, 0] ++ body) ++ frames fs tail) from
          fun _ => by simp only [List.append_assoc],
        List.drop_left' (length_encodeLE _ _), List.take_left' (by simp; omega)]
    have hlen : o + itemHeaderSize + body.length ≤ data'.length := by
      have := congrArg List.length hmid
      simp [readBytes] at this
      omega
    -- the size field
    have hfield : readBytes data' o 4 = encodeLE 4 ((data'.length - o) % 2 ^ 32) := by
      rw [← hsize o (List.mem_cons_self _ _), byteSize, readLE, encodeLE_decodeLE]
      simp only [readBytes, List.length_take, List.length_drop]; omega
    have hlen' : data'.length - o = itemHeaderSize + (body ++ frames fs tail').length := by
      have := congrArg List.length hinner
      simp only [List.length_drop] at this
      simp only [List.length_append]; omega
    rw [drop_eq_readBytes_append data' o 4, hfield, drop_eq_readBytes_append data' (o + 4) (4 + body.length), hmid,
      show o + 4 + (4 + body.length) = o + itemHeaderSize + body.length by omega, hinner, hlen', two_pow_32,
      encodeLE_mod]
    simp only [frames, frame, itemHeader, List.append_assoc]

/-- An item's bytes whose header holds the size of the bytes up to the end: the header counts the
item's bytes. -/
theorem drop_eq_frame {data body : List UInt8} {o s : ℕ} {t : ItemType} (h : data.drop o = itemHeader s t ++ body)
    (hsize : byteSize data o = (data.length - o) % 2 ^ 32) : data.drop o = frame t body := by
  have hlen := congrArg List.length h
  rw [List.length_drop, List.length_append, length_itemHeader] at hlen
  rw [h, frame, ← itemHeader_mod, ← byteSize_of_drop_eq h, hsize, hlen, itemHeader_mod]

/-- An item at the end of the written part, after a call that keeps its bytes after its size field
and leaves its size the bytes to the new end: what the call appended ends the item's body. -/
theorem drop_frame_of_appends {data data' body tail : List UInt8} {t : ItemType} {o : ℕ}
    (hold : data.drop o = frame t body) (hkeep : ∀ i, o + 4 ≤ i → i < data.length → data'[i]? = data[i]?)
    (hsize : byteSize data' o = (data'.length - o) % 2 ^ 32) (htail : data'.drop data.length = tail) :
    data'.drop o = frame t (body ++ tail) := by
  have hlen := congrArg List.length hold
  rw [List.length_drop, length_frame] at hlen
  have hframes : (frames [(t, body)] []).length = itemHeaderSize + body.length := by simp [frames]
  have h : data'.drop o = frames [(t, body)] tail := drop_frames _
    (show data.drop o = frames [(t, body)] [] by simpa [frames] using hold)
    (fun i hi hi' hout => hkeep i (by have := hout o (List.mem_singleton_self _); omega) (by omega))
    (fun c hc => by simp only [frameOffsets, List.mem_singleton] at hc; rw [hc]; exact hsize)
    (by rw [hframes, show o + (itemHeaderSize + body.length) = data.length by unfold itemHeaderSize at *; omega]; exact htail)
  simpa [frames] using h

end Bytes

/-- Positions after a builder's size field are outside the size fields of its chain: the items
that contain it start a size field before it. -/
theorem Builder.ParentsBefore.sparesSizes {b : Builder} (hb : b.ParentsBefore) {P : ℕ → Prop}
    (hP : ∀ i, P i → b.itemOffset + 4 ≤ i) : b.SparesSizes P := fun o ho i hi => by
  rcases List.mem_cons.1 ho with rfl | ho
  · exact .inr (hP i hi)
  · exact .inr (by have := hb o ho; have := hP i hi; omega)

/-- The padding of a size is the same modulo `2 ^ 32`, a whole number of alignment units. -/
theorem paddedLength_mod_sub (n : ℕ) : paddedLength (n % 2 ^ 32) - n % 2 ^ 32 = paddedLength n - n := by
  unfold paddedLength alignBytes
  omega

/-! ## Collections -/

section Lists

variable {layout : Layout} {a : Allocator} {buf : Buffer}

/-- A list builder's destructor, `add_padding(false)`: the zeros follow the item, counted only by
the items that contain it. -/
theorem Builder.drop_addPadding_false {b : Builder} (hb : b.ParentsBefore) (hk : b.itemOffset ≤ buf.data.length) :
    (b.addPadding a buf false).data.drop b.itemOffset =
      buf.data.drop b.itemOffset ++ List.replicate (paddedLength (b.size buf) - b.size buf) 0 := by
  unfold Builder.addPadding
  dsimp only
  by_cases hpad : alignBytes - b.size buf % alignBytes = alignBytes
  · rw [if_pos hpad, show paddedLength (b.size buf) - b.size buf = 0 by unfold paddedLength alignBytes at *; omega,
      List.replicate_zero, List.append_nil]
  · have hzeros := Buffer.reserveSpace_write_data a buf (List.replicate (alignBytes - b.size buf % alignBytes) 0)
    rw [List.length_replicate] at hzeros
    rw [if_neg hpad, if_neg Bool.false_ne_true, drop_addSizes_of_le hb, hzeros, List.drop_append_of_le_length hk,
      ← add_padding_eq_paddedLength hpad, Nat.add_sub_cancel_left]

/-- The destructor of a list builder whose size counts its bytes: its item, at the end of the
written part, is padded. -/
theorem Builder.drop_addPadding_padded {b : Builder} (h : SizesMatch b buf) {bytes : List UInt8}
    (hdrop : buf.data.drop b.itemOffset = bytes) :
    (b.addPadding a buf false).data.drop b.itemOffset = padded bytes := by
  have hlen := congrArg List.length hdrop
  rw [List.length_drop] at hlen
  have hsize : b.size buf = bytes.length % 2 ^ 32 := by
    rw [Builder.size, h.sizes _ (List.mem_cons_self _ _), hlen]
  have hin := h.inside
  rw [Builder.drop_addPadding_false h.parentsBefore (by omega), hdrop, hsize, paddedLength_mod_sub, padded]

theorem NodeRefListBuilder.addNodeRef_eq (nb : NodeRefListBuilder) (buf : Buffer) (r : NodeRef) :
    nb.addNodeRef a buf r = nb.addSize (append a buf r.bytes).2 (append a buf r.bytes).1 := by
  simp only [NodeRefListBuilder.addNodeRef, append, NodeRef.length_bytes]

/-- `add_node_ref` appends the reference's record and adds it to the list's size. -/
theorem NodeRefListBuilder.drop_addNodeRef {nb : NodeRefListBuilder} (hp : nb.ParentsBefore) {s : ℕ}
    {t : ItemType} {rest : List UInt8} (h : buf.data.drop nb.itemOffset = itemHeader s t ++ rest) (r : NodeRef) :
    (nb.addNodeRef a buf r).data.drop nb.itemOffset = itemHeader (s + r.bytes.length) t ++ (rest ++ r.bytes) := by
  rw [nb.addNodeRef_eq, drop_addSize_append a hp h]

/-- A sequence of `add_node_ref` calls appends the references' records in order. -/
theorem NodeRefListBuilder.drop_foldl_addNodeRef {nb : NodeRefListBuilder} (hp : nb.ParentsBefore) {s : ℕ}
    {t : ItemType} {rest : List UInt8} (h : buf.data.drop nb.itemOffset = itemHeader s t ++ rest)
    (nodes : List NodeRef) :
    (nodes.foldl (nb.addNodeRef a) buf).data.drop nb.itemOffset =
      itemHeader (s + (nodes.flatMap NodeRef.bytes).length) t ++ (rest ++ nodes.flatMap NodeRef.bytes) := by
  induction nodes generalizing buf s rest with
  | nil => simpa using h
  | cons r rs ih =>
    rw [List.foldl_cons, ih (nb.drop_addNodeRef hp h r), List.flatMap_cons, List.length_append, Nat.add_assoc,
      List.append_assoc]

@[simp]
theorem Document.CommentHead.length_fields (hd : CommentHead) (textSize : ℕ) : (hd.fields textSize).length = 14 := by
  simp [CommentHead.fields]

@[simp]
theorem Document.CommentHead.length_bytes (hd : CommentHead) (textSize : ℕ) :
    (hd.bytes textSize).length = changesetCommentSize + (hd.user.length + 1) := by
  simp [CommentHead.bytes, changesetCommentSize]; omega

/-- `set_text_size` on a pending comment's record. -/
theorem Document.CommentHead.writeBytes_fields (hd : CommentHead) (n : ℕ) (rest : List UInt8) :
    writeBytes (hd.fields 0 ++ rest) textSizeOffset (encodeLE 4 n) = hd.fields n ++ rest := by
  simp only [CommentHead.fields, List.append_assoc, writeBytes_textSize]

/-- The bytes of a comment's record, its padding `pad` and the user name fill the record's cells. -/
theorem Document.CommentHead.fills_bytes (hd : CommentHead) (n : ℕ) {pad : List UInt8} (hpad : pad.length = 2) :
    Fills (hd.fields n ++ pad ++ (hd.user ++ [0])) (hd.bytes n) :=
  ((fills_written _).append (fills_replicate_none.2 hpad)).append (fills_written _)

/-- Bytes that fill a comment's record hold its fields, two bytes of padding and the user name. -/
theorem Document.CommentHead.eq_of_fills_bytes {hd : CommentHead} {n : ℕ} {data : List UInt8}
    (h : Fills data (hd.bytes n)) : ∃ pad, pad.length = 2 ∧ data = hd.fields n ++ pad ++ (hd.user ++ [0]) := by
  obtain ⟨xs, user, rfl, hxs, huser⟩ := h.split
  obtain ⟨pad, rfl, hpad⟩ := fills_written_append_iff.1 hxs
  exact ⟨pad, fills_replicate_none.1 hpad, by rw [fills_written_iff.1 huser]⟩

/-- `add_comment` with no comment pending and a user name that passes its check, on a discussion at
the end of the written part: its bytes go on with the comment's record, whose text size is still
zero, and the name. -/
theorem ChangesetDiscussionBuilder.drop_addComment {db : ChangesetDiscussionBuilder} {buf : Buffer}
    (hdb : db.comment = none) (hs : SizesMatch db.toBuilder buf) {t : ItemType} {body : List UInt8}
    (h : buf.data.drop db.itemOffset = frame t body) (date uid : ℕ) {user : CString}
    (huser : user.bytes.length ≤ maxOsmStringLength) :
    (db.addComment a buf date uid user).2.2.data.drop db.itemOffset =
      frame t (body ++ (CommentHead.fields ⟨date, uid, user.bytes⟩ 0 ++ Buffer.fresh a (buf.data.length + 14) 2 ++
        (user.bytes ++ [0]))) := by
  obtain ⟨-, -, hdrop, -⟩ := addComment_ok (a := a) hdb hs.itemsBefore date uid huser
  have hs' := (hs.addComment a (fun p hp => by simp [hdb] at hp) date uid user).1
  refine drop_frame_of_appends h (fun i hi hi' => (keepsOn_addComment a
      (P := fun i => db.itemOffset + 4 ≤ i ∧ i < buf.data.length) (hs.parentsBefore.sparesSizes fun _ hi => hi.1)
      (fun _ hi => hi.2) date uid user).getElem?_eq i ⟨hi, hi'⟩) (hs'.sizes _ (List.mem_cons_self _ _)) ?_
  rw [hdrop]; simp [CommentHead.fields]

/-- `add_comment_text` with a text that passes its check, through a pointer into the current storage
to the pending comment's record, which ends a discussion at the end of the written part: the
record's text size is set, the text and its zero follow, and the item is padded. -/
theorem ChangesetDiscussionBuilder.drop_addCommentTextWith {db : ChangesetDiscussionBuilder} {buf : Buffer}
    {p : Ptr} (hdb : db.comment = some p) (hcur : p.generation = buf.generation) (hpb : db.ParentsBefore)
    {t : ItemType} {pre pad : List UInt8} {hd : CommentHead}
    (h : buf.data.drop db.itemOffset = frame t (pre ++ (hd.fields 0 ++ pad ++ (hd.user ++ [0]))))
    (hpad : pad.length = 2) (hpre : (itemHeaderSize + pre.length) % alignBytes = 0)
    (hoff : p.offset = db.itemOffset + itemHeaderSize + pre.length) {text : List UInt8} (htext : text.length ≤ 2 ^ 32 - 2) :
    (db.addCommentTextWith a buf text).1 = .ok () ∧ (db.addCommentTextWith a buf text).2.1 = { db with comment := none } ∧
      (db.addCommentTextWith a buf text).2.2.data.drop db.itemOffset =
        frame t (pre ++ padded (hd.fields (text.length + 1) ++ pad ++ (hd.user ++ [0]) ++ (text ++ [0]))) := by
  have hr : db.addCommentTextWith a buf text = ((ChangesetDiscussionBuilder.addText a { db with comment := none } buf p text).1,
      { db with comment := none }, (ChangesetDiscussionBuilder.addText a { db with comment := none } buf p text).2) := by
    simp only [ChangesetDiscussionBuilder.addCommentTextWith, hdb]
  rw [hr, addText_eq htext]
  refine ⟨rfl, rfl, ?_⟩
  have hlen := congrArg List.length h
  simp only [List.length_drop, length_frame, List.length_append, itemHeaderSize] at hlen
  -- the text size, stored in the record
  have h₁ : (buf.storeAt (p.field textSizeOffset) (encodeLE 4 (text.length + 1))).data.drop db.itemOffset =
      itemHeader (itemHeaderSize + (pre ++ (hd.fields 0 ++ pad ++ (hd.user ++ [0]))).length) t ++
        (pre ++ (hd.fields (text.length + 1) ++ pad ++ (hd.user ++ [0]))) := by
    have hfield : (p.field textSizeOffset).offset - db.itemOffset = itemHeaderSize + pre.length + textSizeOffset := by
      simp only [Ptr.field, hoff]; omega
    rw [drop_storeAt (by omega) (by simp only [Ptr.field]; omega),
      if_pos (show (p.field textSizeOffset).generation = buf.generation from hcur), h, frame, hfield,
      writeBytes_append_right (by rw [length_itemHeader]; omega), length_itemHeader,
      writeBytes_append_right (by omega),
      show itemHeaderSize + pre.length + textSizeOffset - itemHeaderSize - pre.length = textSizeOffset by omega,
      List.append_assoc, hd.writeBytes_fields]
    simp only [List.append_assoc]
  -- the text, its size and the padding
  rw [drop_addPadding_self a hpb (drop_addSize_of_data_eq hpb h₁ (appendWithZero_data a _ text) _)]
  have hX : itemHeaderSize + (pre ++ (hd.fields 0 ++ pad ++ (hd.user ++ [0]))).length + (text.length + 1) =
      (itemHeaderSize + pre.length) + (hd.fields (text.length + 1) ++ pad ++ (hd.user ++ [0]) ++ (text ++ [0])).length := by
    simp only [List.length_append, CommentHead.length_fields, List.length_singleton]; omega
  have hle := le_paddedLength (hd.fields (text.length + 1) ++ pad ++ (hd.user ++ [0]) ++ (text ++ [0])).length
  rw [hX, paddedLength_aligned_add _ hpre, Nat.add_sub_add_left]
  simp only [frame, List.length_append, length_padded, padded, List.append_assoc, List.length_replicate] at hle ⊢
  refine congrArg (· ++ _) (congrArg (itemHeader · t) ?_)
  omega

end Lists

/-! ## Objects and changesets -/

section Entities

variable {layout : Layout}

/-- An item whose size, given, counts its header and body. -/
theorem frame_of_length {t : ItemType} {body : List UInt8} {size : ℕ} (h : itemHeaderSize + body.length = size) :
    frame t body = itemHeader size t ++ body := by
  rw [frame, h]

/-- A new object, as its constructor leaves it: the fixed fields and the slot, with `user_size` one,
all counted in its size. -/
theorem Document.Entity.bytes_object_nil (t : ItemType) :
    (Entity.object t [] []).bytes layout =
      written (itemHeader (layout.sizeOf t + OSMObjectBuilder.minSizeForUser) t ++
        writeBytes (List.replicate (layout.sizeOf t - itemHeaderSize + OSMObjectBuilder.minSizeForUser) 0)
          (layout.sizeOf t - itemHeaderSize) (encodeLE 2 1)) := by
  have hF := layout.itemHeaderSize_le t
  have hm : OSMObjectBuilder.minSizeForUser = 8 := rfl
  have hslot : padded (encodeLE 2 (([] : List UInt8).length + 1) ++ ([] ++ [0])) = encodeLE 2 1 ++ List.replicate 6 0 :=
    rfl
  have h8 : itemHeaderSize = 8 := rfl
  simp only [Entity.bytes, Entity.body, Entity.type, List.flatMap_nil, List.append_nil, ← written_frame]
  refine congrArg written ?_
  rw [writeBytes_replicate (by simp only [length_encodeLE]; omega), hslot, length_encodeLE, hm,
    show layout.sizeOf t - itemHeaderSize + 8 - (layout.sizeOf t - itemHeaderSize + 2) = 6 by omega, fixedFields,
    List.append_assoc]
  exact frame_of_length (by simp only [List.length_append, List.length_replicate, length_encodeLE]; omega)

/-- An object with the name `u` and no sub-item, as `set_user` leaves a new one: the fixed fields,
`user_size`, the name and zeros up to `padded_length(sizeof(string_size_type) + length + 1)`. -/
theorem Document.Entity.bytes_object_user (t : ItemType) (u : List UInt8) :
    (Entity.object t u []).bytes layout =
      written (itemHeader (layout.sizeOf t + paddedLength (2 + u.length + 1)) t ++
        List.replicate (layout.sizeOf t - itemHeaderSize) 0 ++ encodeLE 2 (u.length + 1) ++ u ++
        List.replicate (paddedLength (2 + u.length + 1) - 2 - u.length) 0) := by
  have hF := layout.itemHeaderSize_le t
  have hle := le_paddedLength (2 + u.length + 1)
  have h8 : itemHeaderSize = 8 := rfl
  have hslot : padded (encodeLE 2 (u.length + 1) ++ (u ++ [0])) =
      encodeLE 2 (u.length + 1) ++ u ++ List.replicate (paddedLength (2 + u.length + 1) - 2 - u.length) 0 := by
    rw [padded, List.length_append, length_encodeLE, List.length_append, List.length_singleton, List.append_assoc,
      List.append_assoc, List.append_assoc, List.singleton_append, ← List.replicate_succ, ← Nat.add_assoc]
    congr 3; omega
  simp only [Entity.bytes, Entity.body, Entity.type, List.flatMap_nil, List.append_nil, ← written_frame]
  refine congrArg written ?_
  rw [hslot, fixedFields]
  simp only [List.append_assoc]
  exact frame_of_length (by simp only [List.length_append, List.length_replicate, length_encodeLE]; omega)

/-- A new changeset, as its constructor leaves it: the fixed fields with `user_size` one, and the
slot, all counted in its size. -/
theorem Document.Entity.bytes_changeset_nil :
    (Entity.changeset [] []).bytes layout =
      written (itemHeader (layout.sizeOf .changeset + ChangesetBuilder.minSizeForUser) .changeset ++
        writeBytes (List.replicate (layout.sizeOf .changeset - itemHeaderSize + ChangesetBuilder.minSizeForUser) 0)
          (layout.changesetUserSizeOffset - itemHeaderSize) (encodeLE 2 1)) := by
  have hF := layout.itemHeaderSize_le .changeset
  have hU := layout.itemHeaderSize_le_changesetUserSizeOffset
  have hUF := layout.changesetUserSizeOffset_add_le
  have hm : ChangesetBuilder.minSizeForUser = 8 := rfl
  have h8 : itemHeaderSize = 8 := rfl
  have hslot : padded (([] : List UInt8) ++ [0]) = List.replicate 8 0 := rfl
  simp only [Entity.bytes, Entity.body, Entity.type, List.flatMap_nil, List.append_nil, ← written_frame]
  refine congrArg written ?_
  rw [hm, List.replicate_add, writeBytes_append_left (by simp only [length_encodeLE, List.length_replicate]; omega),
    hslot, fixedFields, List.length_nil, Nat.zero_add]
  refine frame_of_length ?_
  rw [List.length_append, length_writeBytes (by simp only [length_encodeLE, List.length_replicate]; omega),
    List.length_replicate, List.length_replicate]
  omega

/-- A changeset with the name `u` and no sub-item, as `set_user` leaves a new one: the fixed fields
with `user_size` set, the name and zeros up to `padded_length(length + 1)`. -/
theorem Document.Entity.bytes_changeset_user (u : List UInt8) :
    (Entity.changeset u []).bytes layout =
      written (itemHeader (layout.sizeOf .changeset + paddedLength (u.length + 1)) .changeset ++
        List.replicate (layout.changesetUserSizeOffset - itemHeaderSize) 0 ++ encodeLE 2 (u.length + 1) ++
        List.replicate (layout.sizeOf .changeset - layout.changesetUserSizeOffset - 2) 0 ++ u ++
        List.replicate (paddedLength (u.length + 1) - u.length) 0) := by
  have hF := layout.itemHeaderSize_le .changeset
  have hU := layout.itemHeaderSize_le_changesetUserSizeOffset
  have hUF := layout.changesetUserSizeOffset_add_le
  have hle := le_paddedLength (u.length + 1)
  have h8 : itemHeaderSize = 8 := rfl
  have hslot : padded (u ++ [0]) = u ++ List.replicate (paddedLength (u.length + 1) - u.length) 0 := by
    rw [padded, List.length_append, List.length_singleton, List.append_assoc, List.singleton_append,
      ← List.replicate_succ]
    congr 2; omega
  have hfields : writeBytes (fixedFields layout .changeset) (layout.changesetUserSizeOffset - itemHeaderSize)
      (encodeLE 2 (u.length + 1)) = List.replicate (layout.changesetUserSizeOffset - itemHeaderSize) 0 ++
        encodeLE 2 (u.length + 1) ++ List.replicate (layout.sizeOf .changeset - layout.changesetUserSizeOffset - 2) 0 := by
    rw [fixedFields, writeBytes_replicate (by simp only [length_encodeLE]; omega), length_encodeLE]
    congr 2; omega
  simp only [Entity.bytes, Entity.body, Entity.type, List.flatMap_nil, List.append_nil, ← written_frame]
  refine congrArg written ?_
  rw [hslot, hfields]
  simp only [List.append_assoc]
  exact frame_of_length (by simp only [List.length_append, List.length_replicate, length_encodeLE]; omega)

/-- An object's `user_size`: the name's length plus one, as its 16 bits hold it. -/
theorem Document.Entity.readLE_userSize_object {data body : List UInt8} {k : ℕ} {t : ItemType} {u : List UInt8}
    {subs : List ListItem} (h : data.drop k = frame t body) (hbody : Fills body ((Entity.object t u subs).body layout)) :
    readLE data (k + layout.sizeOf t) 2 = (u.length + 1) % 2 ^ 16 := by
  have hF := layout.itemHeaderSize_le t
  obtain ⟨rest, rfl, -⟩ := fills_written_append_iff.1 hbody
  obtain ⟨S, ys, hsplit⟩ : ∃ S ys, data.drop k = (itemHeader S t ++ fixedFields layout t) ++
      encodeLE 2 (u.length + 1) ++ ys :=
    ⟨_, _, by rw [h]; simp only [frame, padded, List.append_assoc]; rfl⟩
  have hread := readLE_of_drop_eq_append hsplit
  rw [List.length_append, length_itemHeader, length_fixedFields, length_encodeLE, decodeLE_encodeLE,
    Nat.add_sub_cancel' hF] at hread
  rw [hread, two_pow_16]

/-- A changeset's `user_size`, one of its fixed fields: the name's length plus one, as its 16 bits
hold it. -/
theorem Document.Entity.readLE_userSize_changeset {data body : List UInt8} {k : ℕ} {u : List UInt8}
    {subs : List ListItem} (h : data.drop k = frame .changeset body)
    (hbody : Fills body ((Entity.changeset u subs).body layout)) :
    readLE data (k + layout.changesetUserSizeOffset) 2 = (u.length + 1) % 2 ^ 16 := by
  have hU := layout.itemHeaderSize_le_changesetUserSizeOffset
  have hUF := layout.changesetUserSizeOffset_add_le
  obtain ⟨rest, rfl, -⟩ := fills_written_append_iff.1 hbody
  obtain ⟨S, ys, hsplit⟩ : ∃ S ys, data.drop k = (itemHeader S .changeset ++
      List.replicate (layout.changesetUserSizeOffset - itemHeaderSize) 0) ++ encodeLE 2 (u.length + 1) ++ ys :=
    ⟨_, _, by
      rw [h, frame, fixedFields, writeBytes_replicate (by simp only [length_encodeLE]; omega)]
      simp only [List.append_assoc]; rfl⟩
  have hread := readLE_of_drop_eq_append hsplit
  rw [List.length_append, length_itemHeader, List.length_replicate, length_encodeLE, decodeLE_encodeLE,
    Nat.add_sub_cancel' hU] at hread
  rw [hread, two_pow_16]

variable (layout) in
/-- An object or a changeset with a sub-item is at least two alignment units longer than its fixed
part: the slot and the sub-item's header. -/
theorem Document.Entity.sizeOf_add_le_length_bytes (e : Entity) (hsubs : e.subs ≠ []) :
    layout.sizeOf e.type + 2 * alignBytes ≤ (e.bytes layout).length := by
  obtain ⟨l, ls, hl⟩ := List.exists_cons_of_ne_nil hsubs
  have hsub : itemHeaderSize ≤ (Cells.padded (l.bytes layout)).length := by
    rw [Cells.length_padded]; exact (le_paddedLength _).trans' (by simp [ListItem.bytes])
  cases e with
  | object t u subs =>
    have hF := layout.itemHeaderSize_le t
    have hslot : alignBytes ≤ paddedLength (2 + (u.length + 1)) := by
      unfold paddedLength alignBytes; omega
    simp only [Entity.subs] at hl; subst hl
    simp only [Entity.bytes, Entity.body, Entity.type, Cells.length_frame, List.length_append, length_written,
      length_fixedFields, length_padded, length_encodeLE, List.length_singleton, List.flatMap_cons] at hsub ⊢
    unfold itemHeaderSize alignBytes at *; omega
  | changeset u subs =>
    have hF := layout.itemHeaderSize_le .changeset
    have hslot : alignBytes ≤ paddedLength (u.length + 1) := by
      unfold paddedLength alignBytes; omega
    simp only [Entity.subs] at hl; subst hl
    simp only [Entity.bytes, Entity.body, Entity.type, Cells.length_frame, List.length_append, length_written,
      length_changesetFields, length_fixedFields, length_padded, List.length_singleton, List.flatMap_cons] at hsub ⊢
    unfold itemHeaderSize alignBytes at *; omega

variable (layout) {a : Allocator} {buf : Buffer}

/-- `add_tags(tags)` with every key and value within `max_osm_string_length`: it returns normally and
appends one tag list of the pairs, padded. -/
theorem OSMObjectBuilder.drop_addTags {ob : OSMObjectBuilder} (h : SizesMatch ob.toBuilder buf)
    {tags : List (CString × CString)}
    (htags : ∀ p ∈ tags, p.1.bytes.length ≤ maxOsmStringLength ∧ p.2.bytes.length ≤ maxOsmStringLength) :
    (ob.addTags layout a buf tags).1 = .ok () ∧
      (ob.addTags layout a buf tags).2.data.drop buf.data.length =
        padded (frame .tagList (fixedFields layout .tagList ++
          tags.flatMap fun p => p.1.bytes ++ [0] ++ (p.2.bytes ++ [0]))) := by
  have hparent : ∀ p ∈ some ob.toBuilder, p.ItemsBefore buf.data.length := fun p hp => by
    cases hp; exact h.itemsBefore
  let tb : TagListBuilder := (TagListBuilder.make layout a buf (some ob.toBuilder)).1
  have hmade : SizesMatch tb.toBuilder (TagListBuilder.make layout a buf (some ob.toBuilder)).2 :=
    h.make_write_some layout a .tagList
  have hcalls : ∀ c ∈ tags.map (fun p => AddTagCall.cStrings p.1 p.2), c.admitted := by
    intro c hc
    obtain ⟨p, hp, rfl⟩ := List.mem_map.1 hc
    simpa [AddTagCall.admitted, AddTagCall.key, AddTagCall.value] using htags p hp
  -- the new tag list, filled
  obtain ⟨hok, hdrop⟩ := runAddTags_eq hmade.parentsBefore
    (TagListBuilder.drop_make (a := a) hparent layout) _ hcalls
  have hrun := hmade.runAddTags a (tags.map fun p => AddTagCall.cStrings p.1 p.2)
  refine ⟨hok, ?_⟩
  -- and padded by its destructor
  rw [OSMObjectBuilder.addTags, TagListBuilder.destroy]
  refine (Builder.drop_addPadding_padded hrun (drop_eq_frame hdrop (hrun.sizes _ (List.mem_cons_self _ _)))).trans ?_
  simp [tagListContent, AddTagCall.key, AddTagCall.value, List.flatMap_map, fixedFields]

/-- `add_tags(tags)` with a key or a value longer than `max_osm_string_length` throws
`std::length_error`. -/
theorem OSMObjectBuilder.addTags_of_long {ob : OSMObjectBuilder} {tags : List (CString × CString)}
    (htags : ¬∀ p ∈ tags, p.1.bytes.length ≤ maxOsmStringLength ∧ p.2.bytes.length ≤ maxOsmStringLength) :
    ∃ msg, (ob.addTags layout a buf tags).1 = .error (.lengthError msg) := by
  push_neg at htags
  obtain ⟨p, hp, hlong⟩ := htags
  refine runAddTags_of_not_admitted ⟨.cStrings p.1 p.2, List.mem_map_of_mem (fun p => AddTagCall.cStrings p.1 p.2) hp, ?_⟩ _
  simp only [AddTagCall.admitted, AddTagCall.key, AddTagCall.value, decide_eq_false_iff_not, not_and, not_le]
  exact hlong

/-- `add_tags(tags)` with a key or a value longer than `max_osm_string_length` throws
`std::length_error`, and the tag list builder's destructor, run as the exception leaves its scope,
finishes the tag list with the pairs before the first that fails the check: the object goes on with a
padded tag list of those pairs, which its size and every enclosing item's count. -/
theorem OSMObjectBuilder.addTags_of_long_prefix {ob : OSMObjectBuilder} (h : SizesMatch ob.toBuilder buf)
    {tags : List (CString × CString)}
    (htags : ¬∀ p ∈ tags, p.1.bytes.length ≤ maxOsmStringLength ∧ p.2.bytes.length ≤ maxOsmStringLength) :
    (∃ msg, (ob.addTags layout a buf tags).1 = .error (.lengthError msg)) ∧
      (ob.addTags layout a buf tags).2.data.drop buf.data.length =
        padded (frame .tagList (fixedFields layout .tagList ++ (tags.takeWhile fun p =>
          decide (p.1.bytes.length ≤ maxOsmStringLength ∧ p.2.bytes.length ≤ maxOsmStringLength)).flatMap
            fun p => p.1.bytes ++ [0] ++ (p.2.bytes ++ [0]))) ∧
      SizesMatch ob.toBuilder (ob.addTags layout a buf tags).2 := by
  have hparent : ∀ p ∈ some ob.toBuilder, p.ItemsBefore buf.data.length := fun p hp => by
    cases hp; exact h.itemsBefore
  let tb : TagListBuilder := (TagListBuilder.make layout a buf (some ob.toBuilder)).1
  have hmade : SizesMatch tb.toBuilder (TagListBuilder.make layout a buf (some ob.toBuilder)).2 :=
    h.make_write_some layout a .tagList
  -- the tag list holds the pairs before the first that throws
  have hdrop := runAddTags_takeWhile (a := a) hmade.parentsBefore (TagListBuilder.drop_make (a := a) hparent layout)
    (tags.map fun p => AddTagCall.cStrings p.1 p.2)
  have hrun := hmade.runAddTags a (tags.map fun p => AddTagCall.cStrings p.1 p.2)
  refine ⟨addTags_of_long layout htags, ?_, h.addTags layout a tags⟩
  -- and is padded by its destructor
  rw [OSMObjectBuilder.addTags, TagListBuilder.destroy]
  refine (Builder.drop_addPadding_padded hrun (drop_eq_frame hdrop (hrun.sizes _ (List.mem_cons_self _ _)))).trans ?_
  simp [tagListContent, AddTagCall.key, AddTagCall.value, List.flatMap_map, fixedFields, List.takeWhile_map,
    Function.comp_def, AddTagCall.admitted]

/-- A way constructed on an empty buffer of capacity 64. -/
def sampleWay : OSMObjectBuilder × Buffer := OSMObjectBuilder.make Layout.amd64 Allocator.sample .way ⟨[], 64, 0⟩ none

/-- The tag `x=x`, then a tag whose key is one byte longer than `osmium::max_osm_string_length`. -/
def longKeyTags : List (CString × CString) := [(sampleText, sampleText), (longUser, sampleText)]

/-- The long key given to the sample way after `x=x`: the way keeps a tag list holding `x=x`. -/
theorem addTags_of_long_prefix_sample :
    SizesMatch sampleWay.1.toBuilder sampleWay.2 ∧
      (¬∀ p ∈ longKeyTags, p.1.bytes.length ≤ maxOsmStringLength ∧ p.2.bytes.length ≤ maxOsmStringLength) ∧
      ((∃ msg, (sampleWay.1.addTags Layout.amd64 Allocator.sample sampleWay.2 longKeyTags).1 =
          .error (.lengthError msg)) ∧
        (sampleWay.1.addTags Layout.amd64 Allocator.sample sampleWay.2 longKeyTags).2.data.drop
            sampleWay.2.data.length =
          padded (frame .tagList (fixedFields Layout.amd64 .tagList ++ (longKeyTags.takeWhile fun p =>
            decide (p.1.bytes.length ≤ maxOsmStringLength ∧ p.2.bytes.length ≤ maxOsmStringLength)).flatMap
              fun p => p.1.bytes ++ [0] ++ (p.2.bytes ++ [0]))) ∧
        SizesMatch sampleWay.1.toBuilder (sampleWay.1.addTags Layout.amd64 Allocator.sample sampleWay.2 longKeyTags).2) :=
  have h : SizesMatch sampleWay.1.toBuilder sampleWay.2 :=
    (sizesMatch_makeWithUserSlot Layout.amd64 Allocator.sample .way (Layout.amd64.itemHeaderSize_le .way)
      (Nat.add_le_add_left (by decide) _)).1
  have hlong : ¬∀ p ∈ longKeyTags, p.1.bytes.length ≤ maxOsmStringLength ∧
      p.2.bytes.length ≤ maxOsmStringLength := fun hall => by
    have hle := (hall (longUser, sampleText) (by simp [longKeyTags])).1
    rw [show longUser.bytes.length = 1025 from List.length_replicate _ _] at hle
    exact absurd hle (by decide)
  ⟨h, hlong, OSMObjectBuilder.addTags_of_long_prefix Layout.amd64 h hlong⟩

/-- `WayBuilder::add_node_refs(nodes)` appends one way node list of the references, padded. -/
theorem OSMObjectBuilder.drop_addNodeRefs {ob : OSMObjectBuilder} (h : SizesMatch ob.toBuilder buf)
    (nodes : List NodeRef) :
    (ob.addNodeRefs layout a buf nodes).data.drop buf.data.length =
      padded (frame .wayNodeList (fixedFields layout .wayNodeList ++ nodes.flatMap NodeRef.bytes)) := by
  have hparent : ∀ p ∈ some ob.toBuilder, p.ItemsBefore buf.data.length := fun p hp => by
    cases hp; exact h.itemsBefore
  let nb : NodeRefListBuilder := (NodeRefListBuilder.make layout a .wayNodeList buf (some ob.toBuilder)).1
  have hmade : SizesMatch nb.toBuilder (NodeRefListBuilder.make layout a .wayNodeList buf (some ob.toBuilder)).2 :=
    h.make_write_some layout a .wayNodeList
  have hdrop := NodeRefListBuilder.drop_foldl_addNodeRef (a := a) hmade.parentsBefore
    (drop_make_write a hparent (layout.length_image .wayNodeList)) nodes
  have hrun := hmade.foldl_addNodeRef a nodes
  rw [OSMObjectBuilder.addNodeRefs, NodeRefListBuilder.destroy]
  exact (Builder.drop_addPadding_padded hrun (drop_eq_frame hdrop (hrun.sizes _ (List.mem_cons_self _ _)))).trans rfl

end Entities

end Osmium
