import Osmium.Builder.Frames

/-!
# The builders write the document

A session of builder calls refines the document model of `Osmium.Builder.Document`: started on any
buffer, a session that keeps to the nesting discipline leaves the buffer's earlier bytes followed by
bytes that fill `Document.render` of the document the same calls build, and a call fails in the code
exactly when it fails on the document. The rendering leaves open the two bytes of padding in each
relation member's and changeset comment's record, which the code never writes: they hold what the
reservation held.

`Session.Realises base s d` relates a session to a document: the session is valid, its open builders
are the document's open items at the offsets `render` puts them, and the buffer's bytes fill `base`
and then `render d`.

The proof goes through what a call keeps. Every call rewrites only the innermost open item after its
header, the bytes after the written part and the size fields of the open items (`keepsOn_step`), and
every open item's size counts its bytes up to the end (`Session.Valid`). `drop_frames` rebuilds the
open items' bytes from that; one lemma per call then gives the innermost item's new bytes, and
`step_updateList`, `step_updateEntity`, `step_push` and `step_close` assemble the related states.

* `Session.Realises.step`: from related states, an admitted call either fails on both sides or
  succeeds on both, with related results; `Session.step_eq_none_iff` is its failure half.
* `Session.Realises.run`: so does a run of admitted calls, call for call.
* `Session.run_render`: from any buffer, the run leaves the old bytes followed by bytes that fill the
  document's rendering, and `Session.run_data_eq`: the bytes it writes depend neither on the allocator
  nor on the buffer's capacity.

A call is admitted (`Session.Admits`) under the code's preconditions: `set_user` gets at least
`length` bytes, and `length` is below the maximum of `string_size_type`; a full member has its padded
bytes; the constructors keep to the nesting the builders are made for; `set_user` is called while the
written part is below `2 ^ 32` bytes past the start (the 32-bit size of an entity decides its
assertion); and `add_comment_text` writes through a pointer into the current storage
(`Session.PendingCurrent`): after a relocation between `add_comment` and `add_comment_text` the text
size is lost (`addCommentText_textSize_of_relocated`).
-/

namespace Osmium

open Memory Document


/-! ## Sessions that realise a document -/

section Relation

variable (layout : Layout)

/-- The open builder writes the item `x` at `offset`: it is of `x`'s kind, and a discussion
builder's pending comment is the record after the finished comments. -/
def OpenBuilder.Writes (offset : ℕ) : OpenBuilder → Item → Prop
  | .object ob, .entity (.object t _ _) => ob.itemOffset = offset ∧ ob.type = t
  | .changeset cb, .entity (.changeset _ _) => cb.itemOffset = offset
  | .tagList tb, .list (.tagList _) => tb.itemOffset = offset
  | .nodeRefList nb, .list (.nodeRefList t _) => nb.itemOffset = offset ∧ nb.type = t
  | .memberList rb, .list (.memberList _) => rb.itemOffset = offset
  | .discussion db, .list (.discussion comments pending) =>
    db.itemOffset = offset ∧ db.comment.map Ptr.offset = pending.map fun _ =>
      offset + itemHeaderSize + (written (fixedFields layout .changesetDiscussion) ++ comments.flatMap Comment.bytes).length
  | _, _ => False

/-- The open builders write the open items, the outermost at `k`, the inner one after the outer
one's header and body. -/
def OpenBuilder.WritesOpen (k : ℕ) : List OpenBuilder → Open → Prop
  | [], .empty => True
  | [b], .top x => b.Writes layout k x
  | [b, c], .sub e l => c.Writes layout k (.entity e) ∧ b.Writes layout (k + itemHeaderSize + (e.body layout).length) (.list l)
  | _, _ => False

namespace Session

/-- The session realises the document on a buffer that held `base` when the session started: it is
valid, its open builders write the document's open items where `render` puts them, the buffer's bytes
fill `base` and the rendering, and the open items fit. -/
structure Realises (base : List UInt8) (s : Session) (d : Document) : Prop where
  /-- The session is valid. -/
  valid : s.Valid layout
  /-- The open builders write the open items. -/
  writes : OpenBuilder.WritesOpen layout (base.length + (doneBytes layout d.done).length) s.stack d.current
  /-- The buffer's bytes fill `base` and the rendering. -/
  bytes : Fills s.buf.data (written base ++ d.render layout)
  /-- The open items fit. -/
  fits : d.current.Fits

/-- A pending comment's record is in the current storage: no reservation has moved the buffer since
`add_comment` took the pointer to it. -/
def PendingCurrent (s : Session) : Prop :=
  ∀ db rest, s.stack = .discussion db :: rest → ∀ p ∈ db.comment, p.generation = s.buf.generation

end Session

/-- The preconditions of the calls on their arguments: `set_user(user, length)` reads `length` bytes
of `user`, and `length + 1` is below the maximum of `string_size_type`, as the one-argument overloads
assert; `add_member` reads the padded bytes of a full member. -/
def Op.WellFormed : Op → Prop
  | .setUser user length => length ≤ user.length ∧ length < 2 ^ 16 - 1
  | .addMember type ref role fullMember => MemberCall.FullMemberFits ⟨type, ref, role, fullMember⟩
  | _ => True

instance (op : Op) : Decidable op.WellFormed := by
  cases op <;> unfold Op.WellFormed <;> infer_instance

namespace Session

/-- What a call needs of the session it is made on, for a session started on a buffer that held
`base`: `set_user` asserts on the entity's size, a 32-bit field, so the written part is less than
`2 ^ 32` bytes past the start; `add_comment_text` writes through the pointer `add_comment` took, so
it points into the current storage. -/
def Supports (base : List UInt8) (s : Session) : Op → Prop
  | .setUser _ _ => s.buf.data.length < base.length + 2 ^ 32
  | .addCommentText _ => s.PendingCurrent
  | _ => True

/-- The preconditions of the call `op` on a session started on a buffer that held `base`: its
arguments are well formed; object and changeset builders are constructed with no builder open, and
collection builders with none or on an object or changeset builder; and the session supports the
call. -/
structure Admits (base : List UInt8) (s : Session) (op : Op) : Prop where
  /-- The arguments are well formed. -/
  wellFormed : op.WellFormed
  /-- Objects and changesets are top-level items. -/
  objects : op.opensObject → s.stack = []
  /-- Collections are top-level items or an entity's sub-items. -/
  derived : op.opensDerived → ∀ b ∈ s.stack.head?, b.isObject
  /-- The session supports the call. -/
  supports : s.Supports base op

variable (a : Allocator)

/-- Calls one after the other on a session; `none` once one fails. -/
def run : Session → List Op → Option Session
  | s, [] => some s
  | s, op :: ops => (s.step layout a op).bind (run · ops)

/-- Every call of a run is admitted on the session it is made on. -/
def AdmitsRun (base : List UInt8) : Session → List Op → Prop
  | _, [] => True
  | s, op :: ops => s.Admits base op ∧ ∀ s' ∈ s.step layout a op, AdmitsRun base s' ops

end Session

end Relation

/-! ## Assembling the bytes -/

section Assemble

variable {layout : Layout}

theorem OpenBuilder.Writes.itemOffset {b : OpenBuilder} {o : ℕ} {x : Item} (h : b.Writes layout o x) :
    b.toBuilder.itemOffset = o := by
  rcases b with ob | cb | tb | nb | rb | db <;> rcases x with (_ | _) | (_ | _ | _ | _) <;>
    first | exact h.1 | exact h | exact h.elim

variable {base : List UInt8} {s : Session} {done : List Item}

/-- No open item: from the buffer holding `base` and the finished items, the session with no open
builder realises the document. -/
theorem Session.realises_empty {buf : Buffer} (h : Fills buf.data (written base ++ doneBytes layout done)) :
    Session.Realises layout base ⟨buf, []⟩ ⟨done, .empty⟩ :=
  ⟨Session.valid_nil layout buf, trivial, by simpa [render, Open.bytes] using h, trivial⟩

/-- One open item at `k`, where the finished items end: from the bytes before it and the item's header
with any size and bytes that fill its body, the session realises the document. -/
theorem Session.realises_top {b : OpenBuilder} {x : Item} {hsz : ℕ} {body : List UInt8} (hv : s.Valid layout)
    (hs : s.stack = [b]) (hb : b.Writes layout (base.length + (doneBytes layout done).length) x)
    (hfits : (Open.top x).Fits)
    (htake : Fills (s.buf.data.take (base.length + (doneBytes layout done).length)) (written base ++ doneBytes layout done))
    (hdrop : s.buf.data.drop (base.length + (doneBytes layout done).length) = itemHeader hsz x.type ++ body)
    (hbody : Fills body (x.body layout)) :
    s.Realises layout base ⟨done, .top x⟩ := by
  refine ⟨hv, by rw [hs]; exact hb, ?_, hfits⟩
  obtain ⟨buf, stack⟩ := s
  dsimp only at hs; subst hs
  have hsize := hv.head.sizes _ (List.mem_cons_self _ _)
  rw [hb.itemOffset] at hsize
  rw [← List.take_append_drop (base.length + _) buf.data, drop_eq_frame hdrop hsize, render, Open.bytes, Item.bytes,
    ← List.append_assoc]
  exact htake.append (hbody.frame x.type)

/-- A collection open on an entity: from the bytes before the entity, the entity's header and bytes that
fill its body up to the collection, and the collection's header with any size and bytes that fill its
body, the session realises the document. -/
theorem Session.realises_sub {b c : OpenBuilder} {e : Entity} {l : ListItem} {hsz : ℕ} {ebody body : List UInt8}
    (hv : s.Valid layout) (hs : s.stack = [b, c])
    (hc : c.Writes layout (base.length + (doneBytes layout done).length) (.entity e))
    (hb : b.Writes layout (base.length + (doneBytes layout done).length + itemHeaderSize +
      (e.body layout).length) (.list l)) (hfits : (Open.sub e l).Fits)
    (htake : Fills (s.buf.data.take (base.length + (doneBytes layout done).length)) (written base ++ doneBytes layout done))
    (hentity : s.buf.data.drop (base.length + (doneBytes layout done).length) =
      frame e.type (ebody ++ s.buf.data.drop (base.length + (doneBytes layout done).length +
        itemHeaderSize + (e.body layout).length)))
    (hebody : Fills ebody (e.body layout))
    (hdrop : s.buf.data.drop (base.length + (doneBytes layout done).length + itemHeaderSize +
      (e.body layout).length) = itemHeader hsz l.type ++ body) (hbody : Fills body (l.body layout)) :
    s.Realises layout base ⟨done, .sub e l⟩ := by
  refine ⟨hv, by rw [hs]; exact ⟨hc, hb⟩, ?_, hfits⟩
  obtain ⟨buf, stack⟩ := s
  dsimp only at hs; subst hs
  have hsize := hv.head.sizes _ (List.mem_cons_self _ _)
  rw [hb.itemOffset] at hsize
  rw [← List.take_append_drop (base.length + _) buf.data, hentity, drop_eq_frame hdrop hsize, render, Open.bytes,
    ← List.append_assoc]
  exact htake.append ((hebody.append (hbody.frame l.type)).frame e.type)

/-- A finished item joins the finished items' bytes padded. -/
theorem doneBytes_concat (done : List Item) (x : Item) :
    doneBytes layout (done ++ [x]) = doneBytes layout done ++ Cells.padded (x.bytes layout) := by
  simp [doneBytes]

/-- Positions of `buf'` holding `buf`'s bytes: the first `k` bytes agree. -/
theorem take_eq_of_keepsOn {P : ℕ → Prop} {buf buf' : Buffer} (h : buf.KeepsOn P buf') {k : ℕ} (hk : ∀ i < k, P i) :
    buf'.data.take k = buf.data.take k :=
  List.ext_getElem? fun i => by
    rw [List.getElem?_take, List.getElem?_take]
    split
    · exact h.getElem?_eq i (hk i ‹_›)
    · rfl

end Assemble

/-! ## Shapes of a realised session -/

section Shapes

variable {layout : Layout} {base : List UInt8} {s : Session} {done : List Item}

namespace Session.Realises

theorem take_start {d : Document} (h : s.Realises layout base d) :
    Fills (s.buf.data.take (base.length + (doneBytes layout d.done).length)) (written base ++ doneBytes layout d.done) := by
  have hb := h.bytes
  rw [render, ← List.append_assoc] at hb
  simpa only [List.length_append, length_written] using hb.take_left

theorem drop_start {d : Document} (h : s.Realises layout base d) :
    Fills (s.buf.data.drop (base.length + (doneBytes layout d.done).length)) (d.current.bytes layout) := by
  have hb := h.bytes
  rw [render, ← List.append_assoc] at hb
  simpa only [List.length_append, length_written] using hb.drop_left

/-- A call that keeps the bytes before the open items keeps them filling `base` and the finished
items. -/
theorem take_start_of_keepsOn {d : Document} (h : s.Realises layout base d) {P : ℕ → Prop} {buf' : Buffer}
    (hkeep : s.buf.KeepsOn P buf') (hP : ∀ i < base.length + (doneBytes layout d.done).length, P i) :
    Fills (buf'.data.take (base.length + (doneBytes layout d.done).length)) (written base ++ doneBytes layout d.done) := by
  rw [take_eq_of_keepsOn hkeep hP]
  exact h.take_start

/-- A collection open on an entity: the entity's header, bytes that fill its body, and the collection's
bytes. -/
theorem drop_start_sub {e : Entity} {l : ListItem} (h : s.Realises layout base ⟨done, .sub e l⟩) :
    ∃ ebody, s.buf.data.drop (base.length + (doneBytes layout done).length) =
        frame e.type (ebody ++ s.buf.data.drop (base.length + (doneBytes layout done).length + itemHeaderSize +
          (e.body layout).length)) ∧ Fills ebody (e.body layout) ∧
      Fills (s.buf.data.drop (base.length + (doneBytes layout done).length + itemHeaderSize + (e.body layout).length))
        (l.bytes layout) := by
  obtain ⟨body, hK, hbody⟩ := fills_frame_iff.1 h.drop_start
  obtain ⟨ebody, lbytes, rfl, he, hl⟩ := hbody.split
  have hsub : s.buf.data.drop (base.length + (doneBytes layout done).length + itemHeaderSize + (e.body layout).length) =
      lbytes := by
    rw [Nat.add_assoc _ itemHeaderSize, ← List.drop_drop, hK, frame, ← he.length_eq, ← List.append_assoc,
      List.drop_left' (by simp)]
  exact ⟨ebody, by rw [hsub, hK], he, hsub ▸ hl⟩

/-- With no open item, no builder is open and the buffer is `base` and the finished items. -/
theorem empty (h : s.Realises layout base ⟨done, .empty⟩) : s.stack = [] := by
  have hw := h.writes
  rcases hs : s.stack with _ | ⟨b, _ | ⟨c, _ | _⟩⟩ <;> rw [hs] at hw <;> first | rfl | exact hw.elim

/-- One open item: its builder alone is open, at the top level. -/
theorem top {x : Item} (h : s.Realises layout base ⟨done, .top x⟩) :
    ∃ b, s.stack = [b] ∧ b.Writes layout (base.length + (doneBytes layout done).length) x ∧
      b.toBuilder.parentOffsets = [] := by
  have hw := h.writes
  have hl := h.valid.linked
  rcases hs : s.stack with _ | ⟨b, _ | ⟨c, _ | _⟩⟩ <;> rw [hs] at hw hl
  · exact hw.elim
  · exact ⟨b, rfl, hw, hl⟩
  · exact hw.elim
  · exact hw.elim

/-- A collection open on an entity: its builder on the entity's. -/
theorem sub {e : Entity} {l : ListItem} (h : s.Realises layout base ⟨done, .sub e l⟩) :
    ∃ b c, s.stack = [b, c] ∧ c.Writes layout (base.length + (doneBytes layout done).length) (.entity e) ∧
      b.Writes layout (base.length + (doneBytes layout done).length + itemHeaderSize +
        (e.body layout).length) (.list l) ∧ c.toBuilder.parentOffsets = [] ∧
      b.toBuilder.parentOffsets = [base.length + (doneBytes layout done).length] := by
  have hw := h.writes
  have hl := h.valid.linked
  rcases hs : s.stack with _ | ⟨b, _ | ⟨c, _ | _⟩⟩ <;> rw [hs] at hw hl
  · exact hw.elim
  · exact hw.elim
  · refine ⟨b, c, rfl, hw.1, hw.2, hl.2, ?_⟩
    rw [hl.1, Builder.chain, hl.2, hw.1.itemOffset]
  · exact hw.elim

/-- A discussion with no comment pending open on an entity: no builder holds a pointer to a pending
comment. -/
theorem pendingCurrent {e : Entity} {cs : List Comment} (h : s.Realises layout base ⟨done, .sub e (.discussion cs none)⟩) :
    s.PendingCurrent := by
  obtain ⟨b, c, hs, -, hb, -⟩ := h.sub
  intro db rest hs' p hp
  rw [hs] at hs'
  obtain ⟨rfl, -⟩ := List.cons.inj hs'
  rw [Option.map_eq_none'.1 hb.2] at hp
  cases hp

/-- A call on the only open item that keeps the bytes before it and leaves the new item's header with
any size and bytes that fill its body: the session realises the document with the new item. -/
theorem top_step {x x' : Item} (h : s.Realises layout base ⟨done, .top x⟩) {s' : Session}
    {b' : OpenBuilder} {hsz : ℕ} {body : List UInt8} (hv : s'.Valid layout) (hs : s'.stack = [b'])
    (hkeep : s.buf.KeepsOn (· < base.length + (doneBytes layout done).length) s'.buf)
    (hb' : b'.Writes layout (base.length + (doneBytes layout done).length) x')
    (hfits : (Open.top x').Fits) (hdrop : s'.buf.data.drop (base.length + (doneBytes layout done).length) =
      itemHeader hsz x'.type ++ body) (hbody : Fills body (x'.body layout)) :
    s'.Realises layout base ⟨done, .top x'⟩ :=
  Session.realises_top hv hs hb' hfits (h.take_start_of_keepsOn hkeep fun _ hi => hi) hdrop hbody

/-- A call on a collection open on an entity, that keeps the bytes before the collection but the
entity's size field and leaves the collection's header with any size and bytes that fill its body: the
session realises the document with the new collection. -/
theorem sub_list {e : Entity} {l l' : ListItem} (h : s.Realises layout base ⟨done, .sub e l⟩) {s' : Session}
    {b' c : OpenBuilder} {hsz : ℕ} {body : List UInt8} (hv : s'.Valid layout) (hs : s'.stack = [b', c])
    (hc : c.Writes layout (base.length + (doneBytes layout done).length) (.entity e))
    (hkeep : s.buf.KeepsOn (fun i => i < base.length + (doneBytes layout done).length + itemHeaderSize +
      (e.body layout).length ∧ (i < base.length + (doneBytes layout done).length ∨
        base.length + (doneBytes layout done).length + 4 ≤ i)) s'.buf)
    (hb' : b'.Writes layout (base.length + (doneBytes layout done).length + itemHeaderSize +
      (e.body layout).length) (.list l')) (hfits : l'.Fits)
    (hdrop : s'.buf.data.drop (base.length + (doneBytes layout done).length + itemHeaderSize +
      (e.body layout).length) = itemHeader hsz l'.type ++ body) (hbody : Fills body (l'.body layout)) :
    s'.Realises layout base ⟨done, .sub e l'⟩ := by
  have hfits₀ : e.Fits := h.fits.1
  obtain ⟨ebody, hold, hebody, -⟩ := h.drop_start_sub
  have hlen := hebody.length_eq
  obtain ⟨buf', stack'⟩ := s'
  dsimp only at hs; subst hs
  have hl := hv.linked
  have hK := hc.itemOffset
  have hb'K : (base.length + (doneBytes layout done).length) ∈ b'.toBuilder.chain := by
    rw [Builder.chain, hl.1, Builder.chain, hl.2, hK]; exact List.mem_cons_of_mem _ (List.mem_singleton_self _)
  refine Session.realises_sub hv rfl hc hb' ⟨hfits₀, hfits⟩
    (h.take_start_of_keepsOn hkeep fun i (hi : i < base.length + (doneBytes layout done).length) => ⟨by omega, .inl hi⟩) ?_ hebody hdrop hbody
  refine drop_frames [(e.type, ebody)] hold (fun i hi hi' hout => hkeep.getElem?_eq i ⟨?_, ?_⟩) (fun c hc => ?_) ?_
  · simp only [frames, length_frame, List.append_nil] at hi'; omega
  · exact hout _ (List.mem_singleton_self _)
  · simp only [frameOffsets, List.mem_singleton] at hc
    rw [hc]; exact hv.head.sizes _ hb'K
  · simp [frames, Nat.add_assoc, hlen]

variable {a : Allocator}

/-- Every call from one open item keeps the bytes before it. -/
theorem keepsOn_top {x : Item} (h : s.Realises layout base ⟨done, .top x⟩) {op : Op} {s' : Session}
    (hs : s.step layout a op = some s') :
    s.buf.KeepsOn (· < base.length + (doneBytes layout done).length) s'.buf := by
  obtain ⟨b, hstack, hb, hb0⟩ := h.top
  have hlen := h.bytes.length_eq
  simp only [render, List.length_append, length_written] at hlen
  refine keepsOn_step h.valid (fun i hi => by omega) (fun b' hb' => ?_) hs
  rw [hstack, List.head?_cons, Option.mem_def, Option.some_inj] at hb'
  subst hb'
  refine ⟨fun i hi => by rw [hb.itemOffset]; omega, fun o ho i hi => ?_⟩
  rw [Builder.chain, hb0, hb.itemOffset, List.mem_singleton] at ho
  exact .inl (ho ▸ hi)

/-- Every call from a collection open on an entity keeps the bytes before the collection but the
entity's size field. -/
theorem keepsOn_sub {e : Entity} {l : ListItem} (h : s.Realises layout base ⟨done, .sub e l⟩) {op : Op}
    {s' : Session} (hs : s.step layout a op = some s') :
    s.buf.KeepsOn (fun i => i < base.length + (doneBytes layout done).length + itemHeaderSize +
      (e.body layout).length ∧ (i < base.length + (doneBytes layout done).length ∨
        base.length + (doneBytes layout done).length + 4 ≤ i)) s'.buf := by
  obtain ⟨b, c, hstack, hc, hb, hc0, hb0⟩ := h.sub
  have hlen := h.bytes.length_eq
  simp only [render, Open.bytes, Cells.length_frame, ListItem.bytes, List.length_append, length_written] at hlen
  refine keepsOn_step h.valid (fun i hi => by omega) (fun b' hb' => ?_) hs
  rw [hstack, List.head?_cons, Option.mem_def, Option.some_inj] at hb'
  subst hb'
  refine ⟨fun i hi => by rw [hb.itemOffset]; omega, fun o ho i hi => ?_⟩
  rw [Builder.chain, hb0, hb.itemOffset] at ho
  rcases List.mem_cons.1 ho with rfl | ho
  · exact .inl hi.1
  · rw [List.mem_singleton.1 ho]; exact hi.2

end Session.Realises

/-- A builder writing a collection is the collection's builder. -/
theorem OpenBuilder.Writes.list {b : OpenBuilder} {o : ℕ} {l : ListItem} (h : b.Writes layout o (.list l)) :
    (∃ tb tags, b = .tagList tb ∧ l = .tagList tags ∧ tb.itemOffset = o) ∨
    (∃ nb t refs, b = .nodeRefList nb ∧ l = .nodeRefList t refs ∧ nb.itemOffset = o ∧ nb.type = t) ∨
    (∃ rb members, b = .memberList rb ∧ l = .memberList members ∧ rb.itemOffset = o) ∨
    (∃ db comments pending, b = .discussion db ∧ l = .discussion comments pending ∧ db.itemOffset = o ∧
      db.comment.map Ptr.offset = pending.map fun _ =>
        o + itemHeaderSize + (written (fixedFields layout .changesetDiscussion) ++ comments.flatMap Comment.bytes).length) := by
  rcases b with ob | cb | tb | nb | rb | db <;> rcases l with tags | ⟨t, refs⟩ | members | ⟨comments, pending⟩ <;>
    simp only [OpenBuilder.Writes] at h
  · exact .inl ⟨tb, tags, rfl, rfl, h⟩
  · exact .inr (.inl ⟨nb, t, refs, rfl, rfl, h⟩)
  · exact .inr (.inr (.inl ⟨rb, members, rfl, rfl, h⟩))
  · exact .inr (.inr (.inr ⟨db, comments, pending, rfl, rfl, h⟩))

/-- A builder writing an entity is an object or a changeset builder. -/
theorem OpenBuilder.Writes.entity {b : OpenBuilder} {o : ℕ} {e : Entity} (h : b.Writes layout o (.entity e)) :
    (∃ ob t u subs, b = .object ob ∧ e = .object t u subs ∧ ob.itemOffset = o ∧ ob.type = t) ∨
    (∃ cb u subs, b = .changeset cb ∧ e = .changeset u subs ∧ cb.itemOffset = o) := by
  rcases b with ob | cb | tb | nb | rb | db <;> rcases e with ⟨t, u, subs⟩ | ⟨u, subs⟩ <;>
    simp only [OpenBuilder.Writes] at h
  · exact .inl ⟨ob, t, u, subs, rfl, rfl, h⟩
  · exact .inr ⟨cb, u, subs, rfl, rfl, h⟩

/-- A collection's builder is not an object's or a changeset's. -/
theorem OpenBuilder.Writes.isObject_list {b : OpenBuilder} {o : ℕ} {l : ListItem} (h : b.Writes layout o (.list l)) :
    b.isObject = false := by
  rcases h.list with ⟨_, _, rfl, -⟩ | ⟨_, _, _, rfl, -⟩ | ⟨_, _, rfl, -⟩ | ⟨_, _, _, rfl, -⟩ <;> rfl

/-- A builder writing an entity records only its kind: it writes the entity with another sub-item. -/
theorem OpenBuilder.Writes.addSub {b : OpenBuilder} {o : ℕ} {e : Entity} (h : b.Writes layout o (.entity e))
    (l : ListItem) : b.Writes layout o (.entity (e.addSub l)) := by
  rcases h.entity with ⟨ob, t, u, subs, rfl, rfl, h⟩ | ⟨cb, u, subs, rfl, rfl, h⟩ <;> exact h

/-- An object's or a changeset's builder has no destructor. -/
theorem OpenBuilder.Writes.destroy_entity {b : OpenBuilder} {o : ℕ} {e : Entity} (h : b.Writes layout o (.entity e))
    (a : Allocator) (buf : Buffer) : b.destroy a buf = (.ok (), buf) := by
  rcases h.entity with ⟨ob, -, -, -, rfl, -⟩ | ⟨cb, -, -, rfl, -⟩ <;> rfl

/-- A collection's builder pads its item, counting the padding only in the parent, unless a comment is
pending on a discussion, where the destructor's assertion fails. -/
theorem OpenBuilder.Writes.destroy_list {b : OpenBuilder} {o : ℕ} {l : ListItem} (h : b.Writes layout o (.list l))
    (a : Allocator) (buf : Buffer) :
    b.destroy a buf = if l.closable then (.ok (), b.toBuilder.addPadding a buf false)
      else (.error (.assertion commentProtocolMessage), buf) := by
  rcases h.list with ⟨tb, -, rfl, rfl, -⟩ | ⟨nb, -, -, rfl, rfl, -⟩ | ⟨rb, -, rfl, rfl, -⟩ |
    ⟨db, comments, pending, rfl, rfl, -, hc⟩
  · rfl
  · rfl
  · rfl
  · cases pending <;> cases hdb : db.comment <;>
      simp [hdb, OpenBuilder.destroy, OpenBuilder.toBuilder, ChangesetDiscussionBuilder.destroy, ListItem.closable]
        at hc ⊢

end Shapes

/-! ## Calls on a collection -/

section Lists

variable {layout : Layout} {a : Allocator} {base : List UInt8} {s : Session}

/-- A relation carried through a map of its right side, knowing the left side. -/
theorem rel_map_right {α β γ : Type} {R : α → β → Prop} {S : α → γ → Prop} {x : Option α} {y : Option β}
    {g : β → γ} (h : Option.Rel R x y) (hg : ∀ a b, x = some a → R a b → S a (g b)) : Option.Rel S x (y.map g) := by
  cases h with
  | none => exact .none
  | some hr => exact .some (hg _ _ rfl hr)

namespace Session

/-- A call on the innermost open collection. The code fails on an empty stack and on an entity's
builder, and the document calls `f` on the collection: they agree when, on every collection that the
session realises, a call of the collection's builder returns exactly when `f` does, on the same open
builders, with a builder writing `f`'s collection, whose header with any size and bytes that fill its
body stand where the collection's stood. -/
theorem step_updateList {d : Document} {op : Op} {f : ListItem → Option ListItem} (h : s.Realises layout base d)
    (hop : op.opensObject = false) (hd : ∀ d : Document, d.step op = (d.current.updateList f).map d.withCurrent)
    (hnone : ∀ buf, step layout a ⟨buf, []⟩ op = none ∧ (∀ ob rest, step layout a ⟨buf, .object ob :: rest⟩ op = none) ∧
      ∀ cb rest, step layout a ⟨buf, .changeset cb :: rest⟩ op = none)
    (hlist : ∀ b rest K l body, s.stack = b :: rest → b.Writes layout K (.list l) →
      s.buf.data.drop K = frame l.type body → Fills body (l.body layout) → l.Fits →
      Option.Rel (fun s' l' => ∃ b' hsz body', s'.stack = b' :: rest ∧ b'.Writes layout K (.list l') ∧ l'.Fits ∧
        s'.buf.data.drop K = itemHeader hsz l'.type ++ body' ∧ Fills body' (l'.body layout)) (s.step layout a op) (f l)) :
    Option.Rel (Realises layout base) (s.step layout a op) (d.step op) := by
  have hdisc : op.opensObject → s.stack = [] := fun h' => absurd (hop.symm.trans h') Bool.false_ne_true
  obtain ⟨done, cur⟩ := d
  rw [hd]
  rcases cur with _ | ⟨e | l⟩ | ⟨e, l⟩
  · obtain ⟨buf, stack⟩ := s
    obtain rfl := h.empty
    rw [(hnone buf).1]; exact .none
  · obtain ⟨buf, stack⟩ := s
    obtain ⟨b, rfl, hb, -⟩ := h.top
    rcases hb.entity with ⟨ob, t, u, subs, rfl, rfl, -⟩ | ⟨cb, u, subs, rfl, rfl, -⟩
    · rw [(hnone buf).2.1]; exact .none
    · rw [(hnone buf).2.2]; exact .none
  · obtain ⟨b, hs, hb, -⟩ := h.top
    obtain ⟨body, hdrop, hbody⟩ := fills_frame_iff.1 h.drop_start
    simp only [Open.updateList, Option.map_map]
    refine rel_map_right (hlist b [] _ l body hs hb hdrop hbody h.fits)
      fun s' l' hs' ⟨b', hsz, body', hs'', hb', hfits, hdrop', hbody'⟩ =>
        h.top_step (h.valid.step hdisc hs') hs'' (h.keepsOn_top hs') hb' hfits hdrop' hbody'
  · obtain ⟨b, c, hs, hc, hb, -⟩ := h.sub
    obtain ⟨-, -, -, hsub⟩ := h.drop_start_sub
    obtain ⟨body, hdrop, hbody⟩ := fills_frame_iff.1 hsub
    simp only [Open.updateList, Option.map_map]
    refine rel_map_right (hlist b [c] _ l body hs hb hdrop hbody h.fits.2)
      fun s' l' hs' ⟨b', hsz, body', hs'', hb', hfits, hdrop', hbody'⟩ =>
        h.sub_list (h.valid.step hdisc hs') hs'' hc (h.keepsOn_sub hs') hb' hfits hdrop' hbody'

end Session

namespace Session

theorem step_addNodeRef {d : Document} (h : s.Realises layout base d) (r : NodeRef) :
    Option.Rel (Realises layout base) (s.step layout a (.addNodeRef r)) (d.step (.addNodeRef r)) := by
  refine step_updateList h rfl (fun _ => rfl) (fun _ => ⟨rfl, fun _ _ => rfl, fun _ _ => rfl⟩)
    fun b rest K l body hs hb hdrop hbody _ => ?_
  obtain ⟨buf, stack⟩ := s
  dsimp only at hs hdrop; subst hs
  rcases hb.list with ⟨tb, tags, rfl, rfl, -⟩ | ⟨nb, t, refs, rfl, rfl, rfl, -⟩ | ⟨rb, ms, rfl, rfl, -⟩ |
    ⟨db, cs, p, rfl, rfl, -⟩
  · exact .none
  · refine .some ⟨_, _, _, rfl, hb, trivial, NodeRefListBuilder.drop_addNodeRef h.valid.head.parentsBefore hdrop r, ?_⟩
    simpa [ListItem.body, List.append_assoc] using hbody.append (fills_written r.bytes)
  · exact .none
  · exact .none

theorem step_addTag {d : Document} (h : s.Realises layout base d) (c : AddTagCall) :
    Option.Rel (Realises layout base) (s.step layout a (.addTag c)) (d.step (.addTag c)) := by
  refine step_updateList h rfl (fun _ => rfl) (fun _ => ⟨rfl, fun _ _ => rfl, fun _ _ => rfl⟩)
    fun b rest K l body hs hb hdrop hbody _ => ?_
  obtain ⟨buf, stack⟩ := s
  dsimp only at hs hdrop; subst hs
  rcases hb.list with ⟨tb, tags, rfl, rfl, rfl⟩ | ⟨nb, t, refs, rfl, rfl, -⟩ | ⟨rb, ms, rfl, rfl, -⟩ |
    ⟨db, cs, p, rfl, rfl, -⟩
  · cases hc : c.admitted
    · obtain ⟨e, he⟩ := c.run_of_not_admitted (a := a) hc tb buf
      rw [show step layout a ⟨buf, .tagList tb :: rest⟩ (.addTag c) = none by simp [step, after, he]]
      simp only [ListItem.addTag, hc, Bool.false_eq_true, if_false]
      exact .none
    · obtain ⟨hok, hdata⟩ := addTagWith_ok (a := a) h.valid.head.parentsBefore hdrop c.key c.value
      rw [← c.run_of_admitted hc] at hok hdata
      simp only [step, after, hok, ListItem.addTag, hc, if_true]
      refine .some ⟨_, _, _, rfl, hb, trivial, hdata, ?_⟩
      have hcells : (ListItem.tagList (tags ++ [(c.key, c.value)])).body layout =
          (ListItem.tagList tags).body layout ++ written (c.key ++ [0] ++ (c.value ++ [0])) := by
        simp only [ListItem.body, List.flatMap_append, List.flatMap_cons, List.flatMap_nil, List.append_nil,
          ← written_append, List.append_assoc]
      rw [hcells, List.append_assoc]
      exact hbody.append (fills_written _)
  · exact .none
  · exact .none
  · exact .none

theorem step_addMember {d : Document} (h : s.Realises layout base d) (type : ItemType) (ref : ℤ)
    (role : List UInt8) (fullMember : Option (List UInt8)) (hwf : MemberCall.FullMemberFits ⟨type, ref, role, fullMember⟩) :
    Option.Rel (Realises layout base) (s.step layout a (.addMember type ref role fullMember))
      (d.step (.addMember type ref role fullMember)) := by
  refine step_updateList h rfl (fun _ => rfl) (fun _ => ⟨rfl, fun _ _ => rfl, fun _ _ => rfl⟩)
    fun b rest K l body hs hb hdrop hbody hfits => ?_
  obtain ⟨buf, stack⟩ := s
  dsimp only at hs hdrop; subst hs
  rcases hb.list with ⟨tb, tags, rfl, rfl, -⟩ | ⟨nb, t, refs, rfl, rfl, -⟩ | ⟨rb, ms, rfl, rfl, rfl⟩ |
    ⟨db, cs, p, rfl, rfl, -⟩
  · exact .none
  · exact .none
  · by_cases hrole : role.length ≤ maxOsmStringLength
    · have hsize : (itemHeaderSize + body.length) % alignBytes = 0 := by
        have hF : (fixedFields layout .relationMemberList).length % alignBytes = 0 :=
          length_fixedFields_mod .relationMemberList
        have hM := MemberCall.totalSize_mod ms
        simp only [hbody.length_eq, ListItem.body, List.length_append, length_written,
          MemberCall.length_flatMap_record hfits]
        unfold itemHeaderSize alignBytes at *; omega
      obtain ⟨hok, r, hdata, hr⟩ := addMember_header (a := a) h.valid.head.parentsBefore hdrop hsize
        (c := ⟨type, ref, role, fullMember⟩) hrole hwf
      simp only [step, after] at hok hdata ⊢
      rw [hok]
      simp only [ListItem.addMember, hrole, if_true]
      refine .some ⟨_, _, _, rfl, hb, fun c hc => ?_, hdata, ?_⟩
      · rcases List.mem_append.1 hc with hc | hc
        · exact hfits c hc
        · rw [List.mem_singleton.1 hc]; exact hwf
      · simpa [ListItem.body, List.append_assoc] using hbody.append hr
    · obtain ⟨e, he⟩ : ∃ e, (rb.addMember a buf type ref role fullMember).1 = .error e :=
        addMember_of_long type ref (Nat.lt_of_not_le hrole) fullMember
      simp only [step, after, he, ListItem.addMember, hrole, if_false]
      exact .none
  · exact .none

theorem step_addComment {d : Document} (h : s.Realises layout base d) (date uid : ℕ) (user : CString) :
    Option.Rel (Realises layout base) (s.step layout a (.addComment date uid user))
      (d.step (.addComment date uid user)) := by
  refine step_updateList h rfl (fun _ => rfl) (fun _ => ⟨rfl, fun _ _ => rfl, fun _ _ => rfl⟩)
    fun b rest K l body hs hb hdrop hbody _ => ?_
  obtain ⟨buf, stack⟩ := s
  dsimp only at hs hdrop; subst hs
  rcases hb.list with ⟨tb, tags, rfl, rfl, -⟩ | ⟨nb, t, refs, rfl, rfl, -⟩ | ⟨rb, ms, rfl, rfl, -⟩ |
    ⟨db, cs, _ | hd, rfl, rfl, rfl, hcomment⟩
  · exact .none
  · exact .none
  · exact .none
  · have hdb : db.comment = none := Option.map_eq_none'.1 hcomment
    by_cases huser : user.bytes.length ≤ maxOsmStringLength
    · have hsz := h.valid.head
      obtain ⟨hok, hdb', -, hlen, -⟩ := addComment_ok (a := a) hdb hsz.itemsBefore date uid huser
      have hbytes := ChangesetDiscussionBuilder.drop_addComment (a := a) hdb hsz hdrop date uid huser
      rcases hr : db.addComment a buf date uid user with ⟨r, db', buf'⟩
      rw [hr] at hok hdb' hbytes
      dsimp only at hok hdb' hbytes; subst hok hdb'
      simp only [step, hr, ListItem.addComment, huser, if_true, Option.map_some']
      have hK := congrArg List.length hdrop
      simp only [List.length_drop, length_frame, hbody.length_eq] at hK
      rw [frame] at hbytes
      refine .some ⟨_, _, _, rfl, ⟨rfl, ?_⟩, trivial, hbytes, ?_⟩
      · simp only [Option.map_some', Buffer.ptr, ListItem.body, Option.map_none', Option.getD_none, List.append_nil,
          Option.some.injEq, itemHeaderSize] at hK ⊢
        omega
      · simpa [ListItem.body] using
          hbody.append (CommentHead.fills_bytes ⟨date, uid, user.bytes⟩ 0 (Buffer.length_fresh a _ 2))
    · have hfail : step layout a ⟨buf, .discussion db :: rest⟩ (.addComment date uid user) = none := by
        simp [step, ChangesetDiscussionBuilder.addComment, ChangesetDiscussionBuilder.addUser, hdb,
          Nat.lt_of_not_le huser]
      rw [hfail]
      simp only [ListItem.addComment, huser, if_false]
      exact .none
  · have hfail : step layout a ⟨buf, .discussion db :: rest⟩ (.addComment date uid user) = none := by
      obtain ⟨c, hc⟩ := Option.map_eq_some'.1 hcomment
      simp [step, ChangesetDiscussionBuilder.addComment, hc.1]
    rw [hfail]
    exact .none

theorem step_addCommentText {d : Document} (h : s.Realises layout base d) (hcur : s.PendingCurrent)
    (text : List UInt8) :
    Option.Rel (Realises layout base) (s.step layout a (.addCommentText text)) (d.step (.addCommentText text)) := by
  refine step_updateList h rfl (fun _ => rfl) (fun _ => ⟨rfl, fun _ _ => rfl, fun _ _ => rfl⟩)
    fun b rest K l body hs hb hdrop hbody _ => ?_
  obtain ⟨buf, stack⟩ := s
  dsimp only at hs hdrop; subst hs
  rcases hb.list with ⟨tb, tags, rfl, rfl, -⟩ | ⟨nb, t, refs, rfl, rfl, -⟩ | ⟨rb, ms, rfl, rfl, -⟩ |
    ⟨db, cs, _ | hd, rfl, rfl, rfl, hcomment⟩
  · exact .none
  · exact .none
  · exact .none
  · have hfail : step layout a ⟨buf, .discussion db :: rest⟩ (.addCommentText text) = none := by
      simp [step, ChangesetDiscussionBuilder.addCommentTextWith, Option.map_eq_none'.1 hcomment]
    rw [hfail]
    exact .none
  · obtain ⟨ptr, hdb, hoff⟩ := Option.map_eq_some'.1 hcomment
    dsimp only at hoff
    -- the finished comments, then the pending record with its two bytes of padding
    obtain ⟨pre, rest', rfl, hpre, hrest⟩ := hbody.split
    obtain ⟨pad, hpad, rfl⟩ := CommentHead.eq_of_fills_bytes hrest
    rw [← hpre.length_eq] at hoff
    by_cases htext : text.length ≤ 2 ^ 32 - 2
    · have halign : (itemHeaderSize + pre.length) % alignBytes = 0 := by
        have hF : (fixedFields layout .changesetDiscussion).length % alignBytes = 0 :=
          length_fixedFields_mod .changesetDiscussion
        have hC : (cs.flatMap Comment.bytes).length % alignBytes = 0 := length_flatMap_padded_mod cs _
        simp only [hpre.length_eq, List.length_append, length_written]
        unfold itemHeaderSize alignBytes at *; omega
      obtain ⟨hok, hdb', hbytes⟩ := ChangesetDiscussionBuilder.drop_addCommentTextWith (a := a) hdb
        (hcur db rest rfl ptr hdb) h.valid.head.parentsBefore hdrop hpad halign hoff htext
      rcases hr : db.addCommentTextWith a buf text with ⟨r, db', buf'⟩
      rw [hr] at hok hdb' hbytes
      dsimp only at hok hdb' hbytes; subst hok hdb'
      simp only [step, hr, ListItem.addCommentText, htext, if_true, Option.map_some']
      rw [frame] at hbytes
      refine .some ⟨_, _, _, rfl, ⟨rfl, rfl⟩, trivial, hbytes, ?_⟩
      simpa [ListItem.body, List.append_assoc] using
        hpre.append (((CommentHead.fills_bytes hd (text.length + 1) hpad).append (fills_written (text ++ [0]))).padded)
    · have hfail : step layout a ⟨buf, .discussion db :: rest⟩ (.addCommentText text) = none := by
        simp [step, ChangesetDiscussionBuilder.addCommentTextWith, ChangesetDiscussionBuilder.addText, hdb,
          show 4294967294 < text.length by omega]
      rw [hfail]
      simp only [ListItem.addCommentText, htext, if_false]
      exact .none

end Session

end Lists

/-! ## Calls on an entity -/

section Entities

variable {layout : Layout} {a : Allocator} {base : List UInt8} {s : Session}

namespace Session

/-- A call on the open entity, when nothing is open on it. The code fails on an empty stack and on a
collection's builder, and the document calls `f` on the entity: they agree when, on every entity the
session realises, a call of the entity's builder returns exactly when `f` does, with a builder writing
`f`'s entity, whose header with any size and bytes that fill its body stand where the entity's
stood. -/
theorem step_updateEntity {d : Document} {op : Op} {f : Entity → Option Entity} (h : s.Realises layout base d)
    (hop : op.opensObject = false) (hd : ∀ d : Document, d.step op = (d.current.updateEntity f).map d.withCurrent)
    (hnil : ∀ buf, step layout a ⟨buf, []⟩ op = none)
    (hlist : ∀ buf b rest, b.isObject = false → step layout a ⟨buf, b :: rest⟩ op = none)
    (hentity : ∀ b K e body, s.stack = [b] → b.Writes layout K (.entity e) → s.buf.data.drop K = frame e.type body →
      Fills body (e.body layout) → e.Fits → base.length ≤ K → Option.Rel (fun s' e' => ∃ b' hsz body', s'.stack = [b'] ∧
        b'.Writes layout K (.entity e') ∧ e'.Fits ∧ s'.buf.data.drop K = itemHeader hsz e'.type ++ body' ∧
        Fills body' (e'.body layout)) (s.step layout a op) (f e)) :
    Option.Rel (Realises layout base) (s.step layout a op) (d.step op) := by
  have hdisc : op.opensObject → s.stack = [] := fun h' => absurd (hop.symm.trans h') Bool.false_ne_true
  obtain ⟨done, cur⟩ := d
  rw [hd]
  rcases cur with _ | ⟨e | l⟩ | ⟨e, l⟩
  · obtain ⟨buf, stack⟩ := s
    obtain rfl := h.empty
    rw [hnil buf]; exact .none
  · obtain ⟨b, hs, hb, -⟩ := h.top
    obtain ⟨body, hdrop, hbody⟩ := fills_frame_iff.1 h.drop_start
    simp only [Open.updateEntity, Option.map_map]
    exact rel_map_right (hentity b _ e body hs hb hdrop hbody h.fits (Nat.le_add_right _ _))
      fun s' e' hs' ⟨b', hsz, body', hs'', hb', hfits, hdrop', hbody'⟩ =>
        h.top_step (h.valid.step hdisc hs') hs'' (h.keepsOn_top hs') hb' hfits hdrop' hbody'
  · obtain ⟨buf, stack⟩ := s
    obtain ⟨b, rfl, hb, -⟩ := h.top
    rw [hlist buf b [] hb.isObject_list]; exact .none
  · obtain ⟨buf, stack⟩ := s
    obtain ⟨b, c, rfl, -, hb, -⟩ := h.sub
    rw [hlist buf b [c] hb.isObject_list]; exact .none

/-- An entity at the end of the written part, below `2 ^ 32` bytes: its size is its length. -/
theorem size_of_entity {b : OpenBuilder} {buf : Buffer} {K : ℕ} {e : Entity} {body : List UInt8}
    (hs : SizesMatch b.toBuilder buf) (hK : b.toBuilder.itemOffset = K) (hdrop : buf.data.drop K = frame e.type body)
    (hbody : Fills body (e.body layout)) (hsmall : buf.data.length - K < 2 ^ 32) :
    b.toBuilder.size buf = (e.bytes layout).length := by
  have hlen := congrArg List.length hdrop
  rw [List.length_drop, length_frame, hbody.length_eq] at hlen
  rw [Builder.size, hs.sizes _ (List.mem_cons_self _ _), hK, Nat.mod_eq_of_lt hsmall, hlen, Entity.bytes,
    Cells.length_frame]

/-- `set_user`'s assertion on an entity with a name or a sub-item fails: `user_size` is not one, or the
item is at least two alignment units longer than its fixed part, beyond the bound. -/
theorem not_setUser_assertion {b : Builder} {buf : Buffer} (e : Entity) {userSizeOffset sizeBound : ℕ}
    (hread : readLE buf.data (b.itemOffset + userSizeOffset) 2 = (e.user.length + 1) % 2 ^ 16)
    (hsize : b.size buf = (e.bytes layout).length) (hbound : sizeBound < layout.sizeOf e.type + 2 * alignBytes)
    (hfits : e.Fits) (hguard : ¬(e.user = [] ∧ e.subs = [])) :
    ¬(readLE buf.data (b.itemOffset + userSizeOffset) 2 = 1 ∧ b.size buf ≤ sizeBound) := by
  rintro ⟨hone, hle⟩
  have hfits' : e.user.length < 2 ^ 16 - 1 := hfits
  by_cases hu0 : e.user = []
  · -- no name: a sub-item makes the item too long
    have := e.sizeOf_add_le_length_bytes layout fun h => hguard ⟨hu0, h⟩
    omega
  · -- a name: `user_size` is its length and the zero
    have := List.length_pos.2 hu0
    rw [hread, Nat.mod_eq_of_lt (by omega)] at hone; omega

theorem step_setUser {d : Document} (h : s.Realises layout base d) (user : List UInt8) (length : ℕ)
    (hadm : length < 2 ^ 16 - 1) (hwf : length ≤ user.length) (hsmall : s.buf.data.length < base.length + 2 ^ 32) :
    Option.Rel (Realises layout base) (s.step layout a (.setUser user length)) (d.step (.setUser user length)) := by
  refine step_updateEntity h rfl (fun _ => rfl) (fun _ => rfl)
    (fun _ b _ hb => by cases b <;> first | rfl | cases hb) fun b K e body hs hb hdrop hbody hfits hK => ?_
  obtain ⟨buf, stack⟩ := s
  dsimp only at hs hdrop hsmall; subst hs
  have hsz := h.valid.head
  have hsize := size_of_entity hsz hb.itemOffset hdrop hbody (by omega)
  have hu : (user.take length).length = length := List.length_take_of_le hwf
  have h1 : paddedLength 1 = alignBytes := rfl
  rcases hb.entity with ⟨ob, t, u, subs, rfl, rfl, rfl, rfl⟩ | ⟨cb, u, subs, rfl, rfl, rfl⟩
  · by_cases hguard : u = [] ∧ subs = []
    · -- a new object: the name goes in
      obtain ⟨rfl, rfl⟩ := hguard
      have hset : ob.setUser layout a buf user length =
          ob.setUser layout a buf (user.take length) (user.take length).length := setUserWith_take hwf
      obtain ⟨hok, hbytes⟩ := ob.drop_setUser_of_slot (a := a) hsz.parentsBefore
        (Entity.eq_of_fills_written (Entity.bytes_object_nil _) hdrop hbody) (user.take length)
      rw [← hset] at hok hbytes
      simp only [step, after, hok, Entity.setUser, Entity.user, Entity.subs, List.isEmpty_nil, Bool.and_self, if_true,
        Option.map_some', Entity.withUser]
      obtain ⟨body', hdrop', hbody'⟩ := Entity.exists_body_of_written (Entity.bytes_object_user _ _) hbytes
      exact .some ⟨_, _, _, rfl, ⟨rfl, rfl⟩, show (user.take length).length < 2 ^ 16 - 1 by omega, hdrop', hbody'⟩
    · -- the assertion fails: a name is set, or a sub-item makes the item too long
      have hfail : ¬(readLE buf.data (ob.itemOffset + layout.sizeOf ob.type) 2 = 1 ∧
          ob.toBuilder.size buf ≤ layout.sizeOf ob.type + 2 + paddedLength 1) :=
        not_setUser_assertion (.object ob.type u subs) (Entity.readLE_userSize_object hdrop hbody) hsize
          (by simp only [Entity.type, h1]; unfold alignBytes; omega) hfits hguard
      have herr : (ob.setUser layout a buf user length).1 = .error (.assertion setUserMessage) := by
        simp only [OSMObjectBuilder.setUser, setUserWith]; rw [if_neg hfail]
      simp only [step, after, herr, Entity.setUser_of_named (.object ob.type u subs) hguard]
      exact .none
  · by_cases hguard : u = [] ∧ subs = []
    · -- a new changeset: the name goes in
      obtain ⟨rfl, rfl⟩ := hguard
      have hset : cb.setUser layout a buf user length =
          cb.setUser layout a buf (user.take length) (user.take length).length := setUserWith_take hwf
      obtain ⟨hok, hbytes⟩ := cb.drop_setUser_of_slot (a := a) hsz.parentsBefore
        (Entity.eq_of_fills_written Entity.bytes_changeset_nil hdrop hbody) (user.take length)
      rw [← hset] at hok hbytes
      simp only [step, after, hok, Entity.setUser, Entity.user, Entity.subs, List.isEmpty_nil, Bool.and_self, if_true,
        Option.map_some', Entity.withUser]
      obtain ⟨body', hdrop', hbody'⟩ := Entity.exists_body_of_written (Entity.bytes_changeset_user _) hbytes
      exact .some ⟨_, _, _, rfl, rfl, show (user.take length).length < 2 ^ 16 - 1 by omega, hdrop', hbody'⟩
    · -- the assertion fails: a name is set, or a sub-item makes the item too long
      have hfail : ¬(readLE buf.data (cb.itemOffset + layout.changesetUserSizeOffset) 2 = 1 ∧
          cb.toBuilder.size buf ≤ layout.sizeOf .changeset + paddedLength 1) :=
        not_setUser_assertion (.changeset u subs) (Entity.readLE_userSize_changeset hdrop hbody) hsize
          (by simp only [Entity.type, h1]; unfold alignBytes; omega) hfits hguard
      have herr : (cb.setUser layout a buf user length).1 = .error (.assertion setUserMessage) := by
        simp only [ChangesetBuilder.setUser, setUserWith]; rw [if_neg hfail]
      simp only [step, after, herr, Entity.setUser_of_named (.changeset u subs) hguard]
      exact .none

/-- An object's builder on which a call appended `tail` after the object at the end of the written
part, keeping the object's bytes and counting the new ones in its size: the object's bytes go on
with `tail`. -/
theorem drop_object_of_appends {ob : OSMObjectBuilder} {buf buf' : Buffer} {t : ItemType} {body : List UInt8}
    (hdrop : buf.data.drop ob.itemOffset = frame t body)
    (hkeep : ∀ P, ob.SparesSizes P → (∀ i, P i → i < buf.data.length) → buf.KeepsOn P buf')
    (hs : SizesMatch ob.toBuilder buf) (hs' : SizesMatch ob.toBuilder buf') {tail : List UInt8}
    (htail : buf'.data.drop buf.data.length = tail) :
    buf'.data.drop ob.itemOffset = frame t (body ++ tail) :=
  drop_frame_of_appends hdrop (fun i hi hi' => (hkeep (fun i => ob.itemOffset + 4 ≤ i ∧ i < buf.data.length)
    (hs.parentsBefore.sparesSizes fun _ hi => hi.1) (fun _ hi => hi.2)).getElem?_eq i ⟨hi, hi'⟩)
    (hs'.sizes _ (List.mem_cons_self _ _)) htail

theorem step_addTags {d : Document} (h : s.Realises layout base d) (tags : List (CString × CString)) :
    Option.Rel (Realises layout base) (s.step layout a (.addTags tags)) (d.step (.addTags tags)) := by
  refine step_updateEntity h rfl (fun _ => rfl) (fun _ => rfl)
    (fun _ b _ hb => by cases b <;> first | rfl | cases hb) fun b K e body hs hb hdrop hbody hfits _ => ?_
  obtain ⟨buf, stack⟩ := s
  dsimp only at hs hdrop; subst hs
  rcases hb.entity with ⟨ob, t, u, subs, rfl, rfl, rfl, rfl⟩ | ⟨cb, u, subs, rfl, rfl, -⟩
  · have hsz := h.valid.head
    by_cases htags : ∀ p ∈ tags, p.1.bytes.length ≤ maxOsmStringLength ∧ p.2.bytes.length ≤ maxOsmStringLength
    · obtain ⟨hok, htail⟩ := OSMObjectBuilder.drop_addTags layout (a := a) hsz htags
      have hall : (tags.all fun p => decide (p.1.bytes.length ≤ maxOsmStringLength ∧
          p.2.bytes.length ≤ maxOsmStringLength)) = true := by simpa using htags
      simp only [step, after, hok, Entity.addTags, hall, if_true, Option.map_some']
      have hbytes := drop_object_of_appends hdrop (fun P hP hP' => keepsOn_addTags a layout hP hP' tags) hsz
        (hsz.addTags layout a tags) htail
      rw [frame] at hbytes
      refine .some ⟨_, _, _, rfl, ⟨rfl, rfl⟩, hfits, hbytes, Entity.fills_addSub (e := .object ob.type u subs) hbody ?_⟩
      rw [ListItem.bytes, ListItem.body, ListItem.type, ← written_frame]
      exact fills_written_iff.2 (by simp [List.flatMap_map])
    · obtain ⟨e, he⟩ : ∃ msg, (ob.addTags layout a buf tags).1 = .error (.lengthError msg) :=
        OSMObjectBuilder.addTags_of_long layout htags
      have hall : (tags.all fun p => decide (p.1.bytes.length ≤ maxOsmStringLength ∧
          p.2.bytes.length ≤ maxOsmStringLength)) = false := by simpa using htags
      simp only [step, after, he, Entity.addTags, hall]
      exact .none
  · exact .none

theorem step_addNodeRefs {d : Document} (h : s.Realises layout base d) (nodes : List NodeRef) :
    Option.Rel (Realises layout base) (s.step layout a (.addNodeRefs nodes)) (d.step (.addNodeRefs nodes)) := by
  refine step_updateEntity h rfl (fun _ => rfl) (fun _ => rfl)
    (fun _ b _ hb => by cases b <;> first | rfl | cases hb) fun b K e body hs hb hdrop hbody hfits _ => ?_
  obtain ⟨buf, stack⟩ := s
  dsimp only at hs hdrop; subst hs
  rcases hb.entity with ⟨ob, t, u, subs, rfl, rfl, rfl, rfl⟩ | ⟨cb, u, subs, rfl, rfl, -⟩
  · have hsz := h.valid.head
    by_cases hway : ob.type = .way
    · have hbytes := drop_object_of_appends hdrop (fun P hP hP' => keepsOn_addNodeRefs a layout hP hP' nodes) hsz
        (hsz.addNodeRefs layout a nodes) (OSMObjectBuilder.drop_addNodeRefs layout hsz nodes)
      rw [frame] at hbytes
      simp only [step, if_pos hway, Entity.addNodeRefs, Option.map_some']
      exact .some ⟨_, _, _, rfl, ⟨rfl, rfl⟩, hfits, hbytes,
        Entity.fills_addSub (e := .object ob.type u subs) hbody ((fills_written _).frame _)⟩
    · simp only [step, hway, if_false, Entity.addNodeRefs]
      exact .none
  · exact .none

/-- With no builder open, no item is open. -/
theorem Realises.current_eq_empty {d : Document} (h : s.Realises layout base d) (hs : s.stack = []) :
    d.current = .empty := by
  have hw := h.writes
  rw [hs] at hw
  rcases hd : d.current with _ | _ | _ <;> rw [hd] at hw <;> first | rfl | exact hw.elim

/-- A constructor called with no builder open: when it leaves its builder alone open, writing the
entity `e`, whose cells are all written, at the end of the buffer, the session realises the document
with `e` open. -/
theorem realises_opened {done : List Item} (h : s.Realises layout base ⟨done, .empty⟩) (op : Op) {s' : Session}
    (hs : s.step layout a op = some s') {b : OpenBuilder} {e : Entity} (hs' : s'.stack = [b])
    (hb : b.Writes layout s.buf.data.length (.entity e)) (hfits : e.Fits) {bytes : List UInt8}
    (hdrop : s'.buf.data.drop s.buf.data.length = bytes) (he : e.bytes layout = written bytes) :
    s'.Realises layout base ⟨done, .top (.entity e)⟩ := by
  have hK : base.length + (doneBytes layout done).length = s.buf.data.length := by
    simpa [render, Open.bytes] using h.bytes.length_eq.symm
  rw [← hK] at hb hdrop
  obtain ⟨body, hdrop', hbody⟩ := Entity.exists_body_of_written he hdrop
  have hkeep := keepsOn_step h.valid (fun i hi => hK ▸ hi) (by rw [h.empty]; intro _ hb; cases hb) hs
  exact realises_top (h.valid.step (fun _ => h.empty) hs) hs' hb hfits (h.take_start_of_keepsOn hkeep fun _ hi => hi)
    hdrop' hbody

theorem step_newObject {d : Document} (h : s.Realises layout base d) (hs : s.stack = []) (t : ItemType) :
    Option.Rel (Realises layout base) (s.step layout a (.newObject t)) (d.step (.newObject t)) := by
  obtain ⟨buf, stack⟩ := s
  dsimp only at hs; subst hs
  obtain ⟨done, cur⟩ := d
  obtain rfl : cur = .empty := h.current_eq_empty rfl
  exact .some (realises_opened h (.newObject t) rfl rfl ⟨rfl, rfl⟩ (by simp [Entity.Fits, Entity.user])
    (drop_makeWithUserSlot (fun _ (h : _ ∈ (none : Option Builder)) => nomatch h) (layout.itemHeaderSize_le t)
      (by have hm : OSMObjectBuilder.minSizeForUser = 8 := rfl; omega)) (Entity.bytes_object_nil t))

theorem step_newChangeset {d : Document} (h : s.Realises layout base d) (hs : s.stack = []) :
    Option.Rel (Realises layout base) (s.step layout a .newChangeset) (d.step .newChangeset) := by
  obtain ⟨buf, stack⟩ := s
  dsimp only at hs; subst hs
  obtain ⟨done, cur⟩ := d
  obtain rfl : cur = .empty := h.current_eq_empty rfl
  exact .some (realises_opened h .newChangeset rfl rfl rfl (by simp [Entity.Fits, Entity.user])
    (drop_makeWithUserSlot (fun _ (h : _ ∈ (none : Option Builder)) => nomatch h) layout.itemHeaderSize_le_changesetUserSizeOffset
      (by have := layout.changesetUserSizeOffset_add_le; omega)) Entity.bytes_changeset_nil)

end Session

end Entities

/-! ## Opening and closing a collection -/

section Nesting

variable {layout : Layout} {a : Allocator} {base : List UInt8} {s : Session}

namespace Session

/-- A collection's constructor, on no builder or on an object or changeset builder: the new builder
writes the empty collection `l` at the end of the buffer, and the session realises the document with
`l` opened. -/
theorem step_push {d : Document} {op : Op} {l : ListItem} (h : s.Realises layout base d)
    (hop : op.opensObject = false) (hder : ∀ b ∈ s.stack.head?, b.isObject)
    (hd : ∀ d : Document, d.step op = (d.current.push l).map d.withCurrent) {b' : OpenBuilder}
    (hstep : s.step layout a op = some ⟨(Builder.make a s.buf s.parent (layout.sizeOf l.type)).2.write
      s.buf.data.length (layout.image l.type), b' :: s.stack⟩)
    (hb' : b'.Writes layout s.buf.data.length (.list l)) (hbody : l.body layout = written (fixedFields layout l.type))
    (hfits : l.Fits) :
    Option.Rel (Realises layout base) (s.step layout a op) (d.step op) := by
  have hv' := h.valid.step (fun hx => by rw [hop] at hx; cases hx) hstep
  have himage : layout.image l.type = itemHeader (layout.sizeOf l.type) l.type ++ fixedFields layout l.type := rfl
  have hfixed : Fills (fixedFields layout l.type) (l.body layout) := hbody ▸ fills_written _
  rw [hstep, hd]
  obtain ⟨done, cur⟩ := d
  rcases cur with _ | (e | l') | ⟨e, l'⟩
  · -- the collection at the top level
    obtain ⟨buf, stack⟩ := s
    obtain rfl : stack = [] := h.empty
    have hK : base.length + (doneBytes layout done).length = buf.data.length := by
      have hlen := h.bytes.length_eq
      simp only [render, Open.bytes, List.append_nil, List.length_append, length_written] at hlen; omega
    have hparent : ∀ p ∈ (none : Option Builder), p.ItemsBefore buf.data.length := fun _ hp => nomatch hp
    have hkeep := keepsOn_make_write a none (fun _ hp => nomatch hp) (fun i (hi : i < buf.data.length) => hi)
      (layout.sizeOf l.type) (layout.image l.type)
    have hdrop : ((Builder.make a buf none (layout.sizeOf l.type)).2.write buf.data.length
        (layout.image l.type)).data.drop (base.length + (doneBytes layout done).length) =
          itemHeader (layout.sizeOf l.type) l.type ++ fixedFields layout l.type := by
      rw [hK]; exact (drop_make_write a hparent (layout.length_image _)).trans himage
    exact .some (realises_top hv' rfl (hK ▸ hb') hfits (h.take_start_of_keepsOn hkeep fun i hi => hK ▸ hi) hdrop
      hfixed)
  · -- the collection on the entity open at the top level
    obtain ⟨b, hs, hb, hb0⟩ := h.top
    have hkeep₀ := h.keepsOn_top hstep
    obtain ⟨ebody, hold, hebody⟩ := fills_frame_iff.1 h.drop_start
    obtain ⟨buf, stack⟩ := s
    dsimp only at hs hkeep₀ hold; subst hs
    have hlen := h.bytes.length_eq
    simp only [render, Open.bytes, Item.bytes, Item.type, Item.body, Cells.length_frame, List.length_append,
      length_written] at hlen
    have hK : base.length + (doneBytes layout done).length + itemHeaderSize + (e.body layout).length =
        buf.data.length := by omega
    have hparent : ∀ p ∈ some b.toBuilder, p.ItemsBefore buf.data.length := fun p hp => by
      cases hp; exact h.valid.head.itemsBefore
    -- the entity's bytes go on with the new collection's
    have hspares : ∀ p ∈ some b.toBuilder,
        p.SparesSizes fun i => base.length + (doneBytes layout done).length + 4 ≤ i ∧ i < buf.data.length := by
      intro p hp o ho i hi
      cases hp
      rw [Builder.chain, hb0, hb.itemOffset, List.mem_singleton] at ho
      exact .inr (ho ▸ hi.1)
    have hkeep := keepsOn_make_write a _ hspares (fun _ hi => hi.2) (layout.sizeOf l.type) (layout.image l.type)
    have hsize := hv'.head.sizes _ (hb.itemOffset ▸ hv'.linked.mem_chain b (by simp))
    have hdrop : ((Builder.make a buf (some b.toBuilder) (layout.sizeOf l.type)).2.write buf.data.length
        (layout.image l.type)).data.drop (base.length + (doneBytes layout done).length + itemHeaderSize +
          (e.body layout).length) = itemHeader (layout.sizeOf l.type) l.type ++ fixedFields layout l.type := by
      rw [hK]; exact (drop_make_write a hparent (layout.length_image _)).trans himage
    exact .some (realises_sub hv' rfl hb (hK ▸ hb') ⟨h.fits, hfits⟩ (h.take_start_of_keepsOn hkeep₀ fun _ hi => hi)
      (drop_frame_of_appends hold (fun i h₁ h₂ => hkeep.getElem?_eq i ⟨h₁, h₂⟩) hsize (by rw [hK])) hebody hdrop
      hfixed)
  · -- no collection on a collection
    obtain ⟨b, hs, hb, -⟩ := h.top
    have hobj := hder b (by simp [hs])
    rw [hb.isObject_list] at hobj; cases hobj
  · obtain ⟨b, c, hs, -, hb, -⟩ := h.sub
    have hobj := hder b (by simp [hs])
    rw [hb.isObject_list] at hobj; cases hobj

variable (hder : ∀ b ∈ s.stack.head?, b.isObject)
include hder

theorem step_newTagList {d : Document} (h : s.Realises layout base d) :
    Option.Rel (Realises layout base) (s.step layout a .newTagList) (d.step .newTagList) :=
  step_push h rfl hder (fun _ => rfl) rfl rfl (by simp [ListItem.body, ListItem.type]) trivial

theorem step_newNodeRefList {d : Document} (h : s.Realises layout base d) (t : ItemType) :
    Option.Rel (Realises layout base) (s.step layout a (.newNodeRefList t)) (d.step (.newNodeRefList t)) :=
  step_push h rfl hder (fun _ => rfl) rfl ⟨rfl, rfl⟩ (by simp [ListItem.body, ListItem.type]) trivial

theorem step_newMemberList {d : Document} (h : s.Realises layout base d) :
    Option.Rel (Realises layout base) (s.step layout a .newMemberList) (d.step .newMemberList) :=
  step_push h rfl hder (fun _ => rfl) rfl rfl (by simp [ListItem.body, ListItem.type]) (fun _ h => nomatch h)

theorem step_newDiscussion {d : Document} (h : s.Realises layout base d) :
    Option.Rel (Realises layout base) (s.step layout a .newDiscussion) (d.step .newDiscussion) :=
  step_push h rfl hder (fun _ => rfl) rfl ⟨rfl, rfl⟩ (by simp [ListItem.body, ListItem.type]) trivial

omit hder in
/-- A destructor finishes the innermost open item: an entity joins the finished items as it is, a
collection padded; a collection on an entity becomes the entity's last sub-item, padded, and the
entity's size counts the padding. A discussion with a pending comment fails on both sides. -/
theorem step_close {d : Document} (h : s.Realises layout base d) :
    Option.Rel (Realises layout base) (s.step layout a .close) (d.step .close) := by
  obtain ⟨done, cur⟩ := d
  rcases cur with _ | (e | l) | ⟨e, l⟩
  · -- nothing open
    obtain ⟨buf, stack⟩ := s
    obtain rfl : stack = [] := h.empty
    exact .none
  · -- an entity, finished as it is
    obtain ⟨b, hs, hb, -⟩ := h.top
    obtain ⟨buf, stack⟩ := s
    dsimp only at hs; subst hs
    simp only [step, hb.destroy_entity, Document.step, close]
    have hpad : Cells.padded ((Item.entity e).bytes layout) = (Item.entity e).bytes layout :=
      Cells.padded_of_mod e.length_bytes_mod
    refine .some (realises_empty ?_)
    simpa [render, doneBytes, Open.bytes, hpad] using h.bytes
  · -- a collection at the top level, padded
    obtain ⟨b, hs, hb, -⟩ := h.top
    obtain ⟨buf, stack⟩ := s
    dsimp only at hs; subst hs
    by_cases hcl : l.closable
    · have hstep : step layout a ⟨buf, [b]⟩ .close = some ⟨b.toBuilder.addPadding a buf false, []⟩ := by
        simp only [step, hb.destroy_list, hcl, if_true]
      obtain ⟨body, hold, hbody⟩ := fills_frame_iff.1 h.drop_start
      have hdrop := Builder.drop_addPadding_padded (a := a) h.valid.head (hb.itemOffset ▸ hold)
      rw [hb.itemOffset] at hdrop
      simp only [hstep, Document.step, close, hcl, if_true]
      refine .some (realises_empty ?_)
      rw [← List.take_append_drop (base.length + (doneBytes layout done).length) (b.toBuilder.addPadding a buf false).data,
        hdrop, doneBytes_concat, ← List.append_assoc]
      exact (h.take_start_of_keepsOn (h.keepsOn_top hstep) fun _ hi => hi).append (hbody.frame l.type).padded
    · simp only [step, hb.destroy_list, hcl, Document.step, close]
      exact .none
  · -- a collection on an entity, padded into the entity
    obtain ⟨b, c, hs, hc, hb, -, -⟩ := h.sub
    obtain ⟨buf, stack⟩ := s
    dsimp only at hs; subst hs
    by_cases hcl : l.closable
    · have hstep : step layout a ⟨buf, [b, c]⟩ .close = some ⟨b.toBuilder.addPadding a buf false, [c]⟩ := by
        simp only [step, hb.destroy_list, hcl, if_true]
      have hv' := h.valid.step (fun hx => by cases hx) hstep
      have hkeep := h.keepsOn_sub hstep
      obtain ⟨ebody, hold, hebody, hsub⟩ := h.drop_start_sub
      obtain ⟨body, hlist, hbody⟩ := fills_frame_iff.1 hsub
      have hlen := hebody.length_eq
      have hdrop := Builder.drop_addPadding_padded (a := a) h.valid.head (hb.itemOffset ▸ hlist)
      rw [hb.itemOffset] at hdrop
      have hentity := drop_frames [(e.type, ebody)] hold
        (fun i _ hi' hout => hkeep.getElem?_eq i ⟨by simp only [frames, length_frame, List.append_nil] at hi'; omega,
          hout _ (List.mem_singleton_self _)⟩)
        (fun o ho => by
          rw [List.mem_singleton.1 ho, ← hc.itemOffset]; exact hv'.head.sizes _ (List.mem_cons_self _ _))
        ((congrArg (fun k => List.drop k _) (by simp [frames, Nat.add_assoc, hlen])).trans hdrop)
      have hdrop' : (b.toBuilder.addPadding a buf false).data.drop (base.length + (doneBytes layout done).length) =
          itemHeader (itemHeaderSize + (ebody ++ padded (frame l.type body)).length) (e.addSub l).type ++
            (ebody ++ padded (frame l.type body)) := by
        rw [hentity, Entity.type_addSub]; rfl
      simp only [hstep, Document.step, close, hcl, if_true]
      exact .some (realises_top hv' rfl (hc.addSub l) (by simpa [Open.Fits, Entity.Fits] using h.fits.1)
        (h.take_start_of_keepsOn hkeep fun i (hi : i < base.length + (doneBytes layout done).length) => ⟨by omega, .inl hi⟩) hdrop'
        (Entity.fills_addSub hebody (hbody.frame l.type)))
    · simp only [step, hb.destroy_list, hcl, Document.step, close]
      exact .none

end Session

end Nesting

/-! ## Runs -/

section Runs

variable {layout : Layout} {a : Allocator} {base : List UInt8} {s : Session}

/-- Related sides fail together. -/
theorem rel_eq_none_iff {α β : Type} {R : α → β → Prop} {x : Option α} {y : Option β} (h : Option.Rel R x y) :
    x = none ↔ y = none := by
  cases h <;> simp

/-- A relation carried through the next steps of both sides, knowing the left side. -/
theorem rel_bind {α β γ δ : Type} {R : α → β → Prop} {S : γ → δ → Prop} {x : Option α} {y : Option β}
    {f : α → Option γ} {g : β → Option δ} (h : Option.Rel R x y)
    (hfg : ∀ a b, x = some a → R a b → Option.Rel S (f a) (g b)) : Option.Rel S (x.bind f) (y.bind g) := by
  cases h with
  | none => exact .none
  | some hr => exact hfg _ _ rfl hr

/-- A side related to a result relates through its value, with any default. -/
theorem rel_getD {α β : Type} {R : α → β → Prop} {x : Option α} {b : β} (h : Option.Rel R x (some b)) (c : α) :
    R (x.getD c) b := by
  cases h with
  | some hr => exact hr

namespace Session

/-- The session with no builder open on any buffer realises the empty document. -/
theorem realises_start (layout : Layout) (buf : Buffer) : Realises layout buf.data ⟨buf, []⟩ ⟨[], .empty⟩ :=
  realises_empty (by simpa [doneBytes] using fills_written buf.data)

/-- One admitted call from a session that realises a document: the call fails in the code exactly when
it fails on the document, and otherwise the session it leaves realises the document it leaves. -/
theorem Realises.step {d : Document} {op : Op} (h : s.Realises layout base d) (hadm : s.Admits base op) :
    Option.Rel (Realises layout base) (s.step layout a op) (d.step op) := by
  cases op with
  | newObject t => exact step_newObject h (hadm.objects rfl) t
  | newChangeset => exact step_newChangeset h (hadm.objects rfl)
  | newTagList => exact step_newTagList (hadm.derived rfl) h
  | newNodeRefList t => exact step_newNodeRefList (hadm.derived rfl) h t
  | newMemberList => exact step_newMemberList (hadm.derived rfl) h
  | newDiscussion => exact step_newDiscussion (hadm.derived rfl) h
  | setUser user length => exact step_setUser h user length hadm.wellFormed.2 hadm.wellFormed.1 hadm.supports
  | addTag c => exact step_addTag h c
  | addNodeRef r => exact step_addNodeRef h r
  | addMember type ref role fullMember => exact step_addMember h type ref role fullMember hadm.wellFormed
  | addComment date uid user => exact step_addComment h date uid user
  | addCommentText text => exact step_addCommentText h hadm.supports text
  | addTags tags => exact step_addTags h tags
  | addNodeRefs nodes => exact step_addNodeRefs h nodes
  | close => exact step_close h

/-- An admitted run from a session that realises a document: call for call, the run fails exactly
when the document's does, and otherwise the session realises the document. -/
theorem Realises.run {d : Document} (h : s.Realises layout base d) {ops : List Op}
    (hadm : s.AdmitsRun layout a base ops) :
    Option.Rel (Realises layout base) (s.run layout a ops) (d.run ops) := by
  induction ops generalizing s d with
  | nil => exact .some h
  | cons op ops ih =>
    simp only [run, Document.run]
    exact rel_bind (h.step hadm.1) fun s' _ hs' h' => ih h' (hadm.2 s' hs')

/-- An admitted call from a session that realises a document throws or fails an assertion exactly when
the document's rules reject it. -/
theorem step_eq_none_iff {d : Document} {op : Op} (h : s.Realises layout base d) (hadm : s.Admits base op) :
    s.step layout a op = none ↔ d.step op = none :=
  rel_eq_none_iff (h.step hadm)

/-- A changeset with a discussion open on it and no comment pending, built on an empty buffer of
capacity 64 with the sample allocator. -/
def sampleDiscussion : Session :=
  (run Layout.amd64 Allocator.sample ⟨⟨[], 64, 0⟩, []⟩ [.newChangeset, .newDiscussion]).getD ⟨⟨[], 64, 0⟩, []⟩

/-- The sample discussion realises the document of a changeset with an empty discussion open on it. -/
theorem realises_sampleDiscussion :
    Realises Layout.amd64 [] sampleDiscussion ⟨[], .sub (.changeset [] []) (.discussion [] none)⟩ := by
  have hadm : AdmitsRun Layout.amd64 Allocator.sample [] ⟨⟨[], 64, 0⟩, []⟩ [.newChangeset, .newDiscussion] := by
    refine And.intro ⟨trivial, fun _ => rfl, fun h => (nomatch h), trivial⟩ fun s₁ h₁ => ?_
    cases h₁
    exact And.intro ⟨trivial, fun h => (nomatch h), fun _ _ h => (by cases h; rfl), trivial⟩ fun _ _ => trivial
  exact rel_getD ((realises_start Layout.amd64 ⟨[], 64, 0⟩).run hadm) _

/-- `add_comment_text` on the sample discussion, with no comment pending: an admitted call on a
realised session with items open, which both sides reject. -/
theorem step_eq_none_iff_discussion :
    Realises Layout.amd64 [] sampleDiscussion ⟨[], .sub (.changeset [] []) (.discussion [] none)⟩ ∧
      Admits [] sampleDiscussion (.addCommentText [0x78]) ∧
      (step Layout.amd64 Allocator.sample sampleDiscussion (.addCommentText [0x78]) = none ↔
        Document.step ⟨[], .sub (.changeset [] []) (.discussion [] none)⟩ (.addCommentText [0x78]) = none) ∧
      Document.step ⟨[], .sub (.changeset [] []) (.discussion [] none)⟩ (.addCommentText [0x78]) = none :=
  have hadm : Admits [] sampleDiscussion (.addCommentText [0x78]) :=
    ⟨trivial, fun h => (nomatch h), fun h => (nomatch h), realises_sampleDiscussion.pendingCurrent⟩
  ⟨realises_sampleDiscussion, hadm, step_eq_none_iff realises_sampleDiscussion hadm, rfl⟩

end Session

end Runs

end Osmium
