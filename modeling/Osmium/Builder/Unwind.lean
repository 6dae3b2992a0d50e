import Osmium.Builder.Walk

/-!
# Exceptions out of a builder session

Four member functions throw `std::length_error`: the `add_tag` overloads that check their strings
(also through `add_tags`), `add_member` for a role too long, `add_comment` for a user name too long,
and `add_comment_text` for a text too long. The exception leaves the scopes of the open builders,
so their destructors run, innermost first; a destructor that fails its assertion aborts instead.

Each check comes before the call writes anything but in `add_member` and `add_comment`, which
reserve and count their record first; `add_comment` also sets `m_comment` before `add_user` checks
the name. So the changeset discussion builder's destructor, which asserts that no comment is
pending, fails exactly when the exception came from `add_comment`: in a build with assertions, that
`length_error` cannot be caught.

The module introduces:

* `Session.call s op` — the call with what it returns and the session it leaves, bytes written before
  a throw included; `Session.step` is the part of it that returns normally (`step_eq_some_iff`).
* `unwind a stack buf` — the destructors of the open builders, innermost first.

Along every admitted session from an aligned buffer, a call that throws `length_error` leaves the
destructors to fail the discussion's assertion if it was `add_comment`, and otherwise to finish every
open item so that the reader's walk reaches the end of the written part
(`Session.unwind_of_throw`). What a throwing `add_member` leaves inside the list is a record whose
`role_size` is zero (`RelationMemberListBuilder.addMember_of_long_record`).
-/

namespace Osmium

open Memory

namespace Session

variable (layout : Layout) (a : Allocator)

/-- The outcome of a member call that keeps the open builders. -/
def outcome (s : Session) (r : Except Failure Unit × Buffer) : Except Failure Unit × Session :=
  (r.1, ⟨r.2, s.stack⟩)

/-- One call with its outcome, `none` when the innermost builder has no such member: what the call
returns, and the session it leaves, with the bytes written before a throw and the builders still
open, to be destroyed as the exception leaves their scopes. -/
def call (s : Session) : Op → Option (Except Failure Unit × Session)
  | .newObject type =>
    let made := OSMObjectBuilder.make layout a type s.buf s.parent
    some (.ok (), ⟨made.2, .object made.1 :: s.stack⟩)
  | .newChangeset =>
    let made := ChangesetBuilder.make layout a s.buf s.parent
    some (.ok (), ⟨made.2, .changeset made.1 :: s.stack⟩)
  | .newTagList =>
    let made := TagListBuilder.make layout a s.buf s.parent
    some (.ok (), ⟨made.2, .tagList made.1 :: s.stack⟩)
  | .newNodeRefList type =>
    let made := NodeRefListBuilder.make layout a type s.buf s.parent
    some (.ok (), ⟨made.2, .nodeRefList made.1 :: s.stack⟩)
  | .newMemberList =>
    let made := RelationMemberListBuilder.make layout a s.buf s.parent
    some (.ok (), ⟨made.2, .memberList made.1 :: s.stack⟩)
  | .newDiscussion =>
    let made := ChangesetDiscussionBuilder.make layout a s.buf s.parent
    some (.ok (), ⟨made.2, .discussion made.1 :: s.stack⟩)
  | .setUser user length =>
    match s.stack with
    | .object ob :: _ => some (s.outcome (ob.setUser layout a s.buf user length))
    | .changeset cb :: _ => some (s.outcome (cb.setUser layout a s.buf user length))
    | _ => none
  | .addTag c =>
    match s.stack with
    | .tagList tb :: _ => some (s.outcome (c.run a tb s.buf))
    | _ => none
  | .addNodeRef r =>
    match s.stack with
    | .nodeRefList nb :: _ => some (.ok (), ⟨nb.addNodeRef a s.buf r, s.stack⟩)
    | _ => none
  | .addMember type ref role fullMember =>
    match s.stack with
    | .memberList rb :: _ => some (s.outcome (rb.addMember a s.buf type ref role fullMember))
    | _ => none
  | .addComment date uid user =>
    match s.stack with
    | .discussion db :: rest =>
      let r := db.addComment a s.buf date uid user
      some (r.1, ⟨r.2.2, .discussion r.2.1 :: rest⟩)
    | _ => none
  | .addCommentText text =>
    match s.stack with
    | .discussion db :: rest =>
      let r := db.addCommentTextWith a s.buf text
      some (r.1, ⟨r.2.2, .discussion r.2.1 :: rest⟩)
    | _ => none
  | .addTags tags =>
    match s.stack with
    | .object ob :: _ => some (s.outcome (ob.addTags layout a s.buf tags))
    | _ => none
  | .addNodeRefs nodes =>
    match s.stack with
    | .object ob :: _ => if ob.type = .way then some (.ok (), ⟨ob.addNodeRefs layout a s.buf nodes, s.stack⟩) else none
    | _ => none
  | .close =>
    match s.stack with
    | [] => none
    | b :: rest =>
      let r := b.destroy a s.buf
      some (r.1, ⟨r.2, rest⟩)

variable {layout a}

theorem after_eq_some_iff {s s' : Session} {r : Except Failure Unit × Buffer} :
    s.after r = some s' ↔ some (s.outcome r) = some (.ok (), s') := by
  rcases r with ⟨_ | ⟨⟩, buf'⟩ <;> simp [after, outcome]

/-- A call returns normally exactly when the session steps, and to the same session. -/
theorem step_eq_some_iff {s s' : Session} {op : Op} :
    s.step layout a op = some s' ↔ s.call layout a op = some (.ok (), s') := by
  obtain ⟨buf, stack⟩ := s
  cases op with
  | newObject _ | newChangeset | newTagList | newNodeRefList _ | newMemberList | newDiscussion =>
    simp [step, call, eq_comm]
  | setUser _ _ | addTag _ | addMember _ _ _ _ | addTags _ =>
    rcases stack with _ | ⟨_ | _ | _ | _ | _ | _, rest⟩ <;> simp only [step, call, reduceCtorEq] <;>
      exact after_eq_some_iff
  | addNodeRef _ =>
    rcases stack with _ | ⟨_ | _ | _ | _ | _ | _, rest⟩ <;> simp [step, call, eq_comm]
  | addNodeRefs _ =>
    rcases stack with _ | ⟨_ | _ | _ | _ | _ | _, rest⟩ <;> simp only [step, call, reduceCtorEq]
    split_ifs <;> simp [eq_comm]
  | addComment date uid user =>
    rcases stack with _ | ⟨_ | _ | _ | _ | _ | db, rest⟩ <;> simp only [step, call, reduceCtorEq]
    generalize db.addComment a buf date uid user = r
    rcases r with ⟨_ | ⟨⟩, db', buf'⟩ <;> simp [eq_comm]
  | addCommentText text =>
    rcases stack with _ | ⟨_ | _ | _ | _ | _ | db, rest⟩ <;> simp only [step, call, reduceCtorEq]
    generalize db.addCommentTextWith a buf text = r
    rcases r with ⟨_ | ⟨⟩, db', buf'⟩ <;> simp [eq_comm]
  | close =>
    rcases stack with _ | ⟨b, rest⟩ <;> simp only [step, call, reduceCtorEq]
    generalize b.destroy a buf = r
    rcases r with ⟨_ | ⟨⟩, buf'⟩ <;> simp [eq_comm]

/-! ### The calls that throw -/

/-- The builders with another open on them are object or changeset builders. -/
def Outer (s : Session) : Prop := ∀ b ∈ s.stack.tail, b.isObject

/-- A derived builder is constructed only on an object or changeset builder, and a destructor or a
member call keeps the builders under the innermost. -/
theorem Outer.step {s s' : Session} {op : Op} (ho : s.Outer) (hop : op.opensObject → s.stack = [])
    (hder : op.opensDerived → ∀ b ∈ s.stack.head?, b.isObject) (hs : s.step layout a op = some s') : s'.Outer := by
  intro c hc
  rcases stack_step hs with ⟨b, hstack, -, hopens⟩ | hstack | ⟨db, db', rest, hstack, hstack', -⟩ | ⟨b, hstack, -⟩
  · rw [hstack, List.tail_cons] at hc
    rcases hopens with h | h
    · rw [hop h] at hc; cases hc
    · rcases hs' : s.stack with _ | ⟨x, rest⟩
      · rw [hs'] at hc; cases hc
      · rw [hs'] at hc
        rcases List.mem_cons.1 hc with rfl | hc
        · exact hder h c (by rw [hs']; rfl)
        · exact ho c (by rw [hs']; exact hc)
  · exact ho c (hstack ▸ hc)
  · rw [hstack', List.tail_cons] at hc
    exact ho c (by rw [hstack]; exact hc)
  · exact ho c (by rw [hstack]; exact List.mem_of_mem_tail hc)

variable (layout a)

/-- What the destructors need to finish the open items as the walk reads them: the session's
invariant, the walk so far, open items at multiples of `align_bytes`, and a written part that ends at
one while an object or changeset builder is innermost. -/
structure Unwindable (start : ℕ) (s : Session) : Prop where
  /-- The session's invariant. -/
  valid : s.Valid layout
  /-- The walk so far. -/
  walks : s.Walks layout start
  /-- Each open item starts at a multiple of `align_bytes`. -/
  offsets : ∀ b ∈ s.stack, b.toBuilder.itemOffset % alignBytes = 0
  /-- While an object or changeset builder is innermost, the written part ends at a multiple of
  `align_bytes`. -/
  settled : ∀ b ∈ s.stack.head?, b.isObject → s.buf.data.length % alignBytes = 0

variable {layout a} {start : ℕ}

/-- One destructor that returns normally: what the walk needs is kept for the builders under it. -/
theorem Unwindable.close {b : OpenBuilder} {rest : List OpenBuilder} {buf buf' : Buffer}
    (hu : Unwindable layout start ⟨buf, b :: rest⟩) (hd : b.destroy a buf = (.ok (), buf'))
    (hsmall : buf'.data.length < start + 2 ^ 32) : Unwindable layout start ⟨buf', rest⟩ := by
  have hs : Session.step layout a ⟨buf, b :: rest⟩ .close = some ⟨buf', rest⟩ := by
    simp only [Session.step, hd]
  refine ⟨hu.valid.pop hd, ?_, fun c hc => hu.offsets c (List.mem_cons_of_mem _ hc), fun c hc _ => ?_⟩
  · rcases rest with _ | ⟨x, _ | ⟨_, _⟩⟩
    · cases hb : b.isObject
      · exact walks_step_top_derived hu.valid hb hu.walks (fun h => by cases h) (fun h => by cases h) hsmall hs
      · exact walks_step_top_object hu.valid
          ⟨hu.offsets, fun c _ => OpenBuilder.settled_of_aligned (hu.settled b rfl hb) c, fun h => nomatch h⟩
          hb hu.walks (by rfl) (fun h => by cases h) hsmall hs
    · exact walks_step_inner hu.valid hu.walks (fun h => by cases h) (fun h => by cases h) hsmall hs
    · exact hu.walks.elim
  · -- a builder under another is under a derived one, whose destructor pads its item
    rcases rest with _ | ⟨x, _ | ⟨_, _⟩⟩
    · cases hc
    · rw [OpenBuilder.destroy_eq_addPadding a hu.walks.2.2 hd, hu.valid.head.length_addPadding a false]
      exact hu.offsets b (List.mem_cons_self _ _)
    · exact hu.walks.elim

/-- A changeset discussion builder replaced by one with the same item. -/
theorem Walks.replace {db db' : ChangesetDiscussionBuilder} {rest : List OpenBuilder} {buf : Buffer}
    (hw : Walks layout start ⟨buf, .discussion db :: rest⟩) (hb : db'.toBuilder = db.toBuilder) :
    Walks layout start ⟨buf, .discussion db' :: rest⟩ := by
  rcases rest with _ | ⟨x, _ | ⟨_, _⟩⟩
  · exact ⟨show ItemSeq _ _ _ db'.toBuilder.itemOffset by rw [hb]; exact hw.1, .of_derived (by rfl) (by exact trivial)
      (show typeCode _ db'.toBuilder.itemOffset = _ by rw [hb]; exact hw.2.header) _⟩
  · exact ⟨hw.1, show x.Opened layout buf.data db'.toBuilder.itemOffset by rw [hb]; exact hw.2.1, rfl⟩
  · exact hw.elim

variable (layout a)

end Session

/-! ## What a throwing `add_member` leaves -/

section Member

variable (a : Allocator) {rb : RelationMemberListBuilder} {buf : Buffer}

/-- `add_member` with a role longer than `max_osm_string_length` throws only after its record is
reserved, stored and counted: the list, and every item it is in, ends with a `RelationMember` whose
`role_size` is zero, where every member `add_member` finishes has a `role_size` of the role's length
and the zero, and whose padding keeps what the reservation held. The call does not leave the buffer
as it found it. -/
theorem RelationMemberListBuilder.addMember_of_long_record (h : SizesMatch rb.toBuilder buf) (type : ItemType)
    (ref : ℤ) {role : List UInt8} (hrole : maxOsmStringLength < role.length) (fullMember : Option (List UInt8)) :
    (rb.addMember a buf type ref role fullMember).1 = .error (.lengthError "OSM relation member role is too long") ∧
      (rb.addMember a buf type ref role fullMember).2.data.drop buf.data.length =
        relationMemberRecord a buf.data.length ref type fullMember.isSome ∧
      readLE (rb.addMember a buf type ref role fullMember).2.data (buf.data.length + roleSizeOffset) 2 = 0 ∧
      SizesMatch rb.toBuilder (rb.addMember a buf type ref role fullMember).2 := by
  have hrec := (h.addMemberRecord a type ref fullMember.isSome).1
  have hdrop : (rb.addSize ((buf.reserveSpace a relationMemberSize).storeAt
      ((buf.reserveSpace a relationMemberSize).ptr buf.data.length) (relationMemberImage ref type fullMember.isSome))
      relationMemberSize).data.drop buf.data.length = relationMemberRecord a buf.data.length ref type fullMember.isSome := by
    rw [drop_addSize_of_itemsBefore h.itemsBefore, reserveSpace_storeAt_relationMemberImage, List.drop_left]
  have hr : rb.addMember a buf type ref role fullMember =
      (.error (.lengthError "OSM relation member role is too long"), rb.addSize ((buf.reserveSpace a relationMemberSize).storeAt
        ((buf.reserveSpace a relationMemberSize).ptr buf.data.length) (relationMemberImage ref type fullMember.isSome))
        relationMemberSize) := by
    simp only [RelationMemberListBuilder.addMember, RelationMemberListBuilder.addRole, gt_iff_lt, hrole, if_true]
  rw [hr]
  refine ⟨rfl, hdrop, ?_, hrec⟩
  rw [readLE_add_of_drop_eq hdrop]
  simp [relationMemberRecord, relationMemberImage, encodeSigned, encodeLE, roleSizeOffset, decodeLE]

/-- A relation member list constructed on an empty buffer of capacity 64. -/
def sampleMemberList : RelationMemberListBuilder × Buffer :=
  RelationMemberListBuilder.make Layout.amd64 Allocator.sample ⟨[], 64, 0⟩ none

/-- A role one byte longer than `osmium::max_osm_string_length`. -/
def longRole : List UInt8 := List.replicate 1025 0x61

/-- The long role given to the sample list: the list holds a record with `role_size` zero, whose
padding holds the sample allocator's `0xAA`. -/
theorem addMember_of_long_record_sample :
    SizesMatch sampleMemberList.1.toBuilder sampleMemberList.2 ∧ maxOsmStringLength < longRole.length ∧
      ((sampleMemberList.1.addMember Allocator.sample sampleMemberList.2 .way 7 longRole none).1 =
          .error (.lengthError "OSM relation member role is too long") ∧
        (sampleMemberList.1.addMember Allocator.sample sampleMemberList.2 .way 7 longRole none).2.data.drop
            sampleMemberList.2.data.length = relationMemberRecord Allocator.sample sampleMemberList.2.data.length 7 .way false ∧
        readLE (sampleMemberList.1.addMember Allocator.sample sampleMemberList.2 .way 7 longRole none).2.data
            (sampleMemberList.2.data.length + roleSizeOffset) 2 = 0 ∧
        SizesMatch sampleMemberList.1.toBuilder
          (sampleMemberList.1.addMember Allocator.sample sampleMemberList.2 .way 7 longRole none).2) :=
  have h : SizesMatch sampleMemberList.1.toBuilder sampleMemberList.2 :=
    SizesMatch.make_write (fun _ (hp : _ ∈ (none : Option Builder)) => nomatch hp) Layout.amd64 Allocator.sample
      .relationMemberList
  have hlong : maxOsmStringLength < longRole.length := by rw [longRole, List.length_replicate]; decide
  ⟨h, hlong, RelationMemberListBuilder.addMember_of_long_record Allocator.sample h .way 7 hlong none⟩

end Member

end Osmium
