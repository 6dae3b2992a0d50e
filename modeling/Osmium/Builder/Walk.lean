import Osmium.Builder.Frame

/-!
# Walking the items of a buffer

A reader walks the items of a buffer as `osmium::memory::ItemIterator` does: from an item's start it
steps over the item's padded size, `padded_length(byte_size())`, to where the next item starts, and
it stops at the end of the range. Within an object or a changeset it walks the sub-items the same
way, from where they start, after the fixed part and the user name padded to `align_bytes`, to the
item's padded end. Stepping lands on item starts only because every item's size counts exactly its
bytes, every finished item is followed by its padding, and the user name's slot is padded; the
builders are what make this so.

Modelled from the spec and from the layout the builders write: the iterator, and the object and
changeset headers that compute where sub-items start, are not part of the sources modelled here.

The module introduces:

* `ItemSeq ok data start stop` — the walk from `start` visits items satisfying `ok`, each at least a
  header long, and lands exactly on `stop`.
* `subitemsStart layout data offset` — where the reader starts walking the sub-items of the item at
  `offset`, from the kind its header names: after an object's fixed part and its `user_size` field
  and name, padded; after a changeset's fixed part and its name, padded; nowhere for other kinds.
* `SubitemsWalk layout data offset` — the sub-items of the item at `offset`, if its kind has any,
  walk from their start to the item's padded end.
* `Session.AdmittedStep` — a call with arguments the C++ classes admit, of a session that constructs
  object and changeset builders only at the top level and derived builders only there or on them.

Along every such session on a buffer whose written part ends at a multiple of `align_bytes`, and that
writes fewer than `2 ^ 32` bytes, whenever no builder is open the items walk from where the session
started to the end of the written part, and the sub-items of every object and changeset among them
walk to its end (`Session.itemSeq_of_reaches`).
-/

namespace Osmium

open Memory

namespace Memory

/-! ### The walk -/

/-- Where `ItemIterator` goes from the item at `offset`: past its padded size. -/
def nextItem (data : List UInt8) (offset : ℕ) : ℕ := offset + paddedLength (byteSize data offset)

/-- The walk from `start` visits items satisfying `ok`, each at least a header long, and lands
exactly on `stop`. -/
inductive ItemSeq (ok : ℕ → Prop) (data : List UInt8) : ℕ → ℕ → Prop
  /-- The walk ends where it starts. -/
  | nil (offset : ℕ) : ItemSeq ok data offset offset
  /-- An item, then the walk from where the iterator goes after it. -/
  | cons {offset stop : ℕ} (header : itemHeaderSize ≤ byteSize data offset) (hok : ok offset)
      (rest : ItemSeq ok data (nextItem data offset) stop) : ItemSeq ok data offset stop

/-- An item at least a header long ends past its header. -/
theorem add_itemHeaderSize_le_nextItem {data : List UInt8} {offset : ℕ} (h : itemHeaderSize ≤ byteSize data offset) :
    offset + itemHeaderSize ≤ nextItem data offset :=
  Nat.add_le_add_left (h.trans (le_paddedLength _)) offset

/-- The size, and so the next item's start, is read from the item's first four bytes. -/
theorem nextItem_congr {data data' : List UInt8} {offset : ℕ}
    (h : ∀ i, offset ≤ i → i < offset + 4 → data'[i]? = data[i]?) : nextItem data' offset = nextItem data offset := by
  rw [nextItem, nextItem, byteSize, byteSize, readLE_congr h]

namespace ItemSeq

variable {ok : ℕ → Prop} {data : List UInt8}

theorem le {o e : ℕ} (h : ItemSeq ok data o e) : o ≤ e := by
  induction h with
  | nil => exact le_rfl
  | cons hsize _ _ ih => exact (Nat.le_add_right _ _).trans ((add_itemHeaderSize_le_nextItem hsize).trans ih)

theorem nil_of_eq {o e : ℕ} (h : o = e) : ItemSeq ok data o e := h ▸ .nil o

/-- One more item at the end of the walk. -/
theorem snoc {o e : ℕ} (h : ItemSeq ok data o e) (hsize : itemHeaderSize ≤ byteSize data e) (hok : ok e) :
    ItemSeq ok data o (nextItem data e) := by
  induction h with
  | nil => exact .cons hsize hok (.nil _)
  | cons hs ho _ ih => exact .cons hs ho (ih hsize hok)

/-- The walk reads only the bytes of the items it visits: it carries over to bytes that agree on its
range, for an `ok'` that the bytes of each visited item give. -/
theorem congr {ok' : ℕ → Prop} {data' : List UInt8} {o e : ℕ} (h : ItemSeq ok data o e)
    (hdata : ∀ i, o ≤ i → i < e → data'[i]? = data[i]?)
    (hok : ∀ x, itemHeaderSize ≤ byteSize data x → ok x →
      (∀ i, x ≤ i → i < nextItem data x → data'[i]? = data[i]?) → ok' x) :
    ItemSeq ok' data' o e := by
  induction h with
  | nil => exact .nil _
  | @cons x e hsize hx rest ih =>
    have hle := rest.le
    have hnext := add_itemHeaderSize_le_nextItem hsize
    unfold itemHeaderSize at hnext
    have hsize' : byteSize data' x = byteSize data x := readLE_congr fun i h₁ h₂ => hdata i h₁ (by omega)
    have hnext' : nextItem data' x = nextItem data x := nextItem_congr fun i h₁ h₂ => hdata i h₁ (by omega)
    refine .cons (hsize' ▸ hsize) (hok x hsize hx fun i h₁ h₂ => hdata i h₁ (by omega)) ?_
    rw [hnext']
    exact ih fun i h₁ h₂ => hdata i (by omega) h₂

end ItemSeq

/-! ### Sub-items -/

/-- `Item::type()` of the item at `offset`, as its code. -/
def typeCode (data : List UInt8) (offset : ℕ) : ℕ := readLE data (offset + 4) 2

/-- The kind of an item whose header is known. -/
theorem typeCode_of_drop_eq {data rest : List UInt8} {offset size : ℕ} {type : ItemType}
    (h : data.drop offset = itemHeader size type ++ rest) : typeCode data offset = type.code := by
  rw [typeCode, readLE_add_of_drop_eq h]
  simp only [itemHeader, List.append_assoc]
  rw [List.drop_left' (length_encodeLE 4 size), List.take_left' (length_encodeLE 2 type.code), decodeLE_encodeLE,
    Nat.mod_eq_of_lt type.code_lt]

variable (layout : Layout)

/-- Where the sub-items of an item of kind `t` at `offset` start, as `subitems_position()` computes
it: after an object's fixed part, its `user_size` field and the name, padded to `align_bytes`, and
after a changeset's fixed part and its name, padded likewise. Other kinds have none. -/
def subitemsAt (data : List UInt8) (offset : ℕ) (t : ItemType) : Option ℕ :=
  if t.isOSMObject then
    some (offset + layout.sizeOf t + paddedLength (2 + readLE data (offset + layout.sizeOf t) 2))
  else if t = .changeset then
    some (offset + layout.sizeOf .changeset + paddedLength (readLE data (offset + layout.changesetUserSizeOffset) 2))
  else none

/-- Where the reader starts walking the sub-items of the item at `offset`, whose kind it takes from the
item's header. -/
def subitemsStart (data : List UInt8) (offset : ℕ) : Option ℕ :=
  (ItemType.ofCode? (typeCode data offset)).bind (subitemsAt layout data offset)

/-- The sub-items of the item at `offset`, if its kind has any, walk from where they start to the
item's padded end. -/
def SubitemsWalk (data : List UInt8) (offset : ℕ) : Prop :=
  ∀ start ∈ subitemsStart layout data offset, ItemSeq (fun _ => True) data start (nextItem data offset)

variable {layout} {data : List UInt8}

theorem subitemsStart_eq {offset : ℕ} {t : ItemType} (h : typeCode data offset = t.code) :
    subitemsStart layout data offset = subitemsAt layout data offset t := by
  rw [subitemsStart, h, ItemType.ofCode?_code, Option.some_bind]

/-- Sub-items start after the item's header. -/
theorem add_itemHeaderSize_le_of_mem_subitemsAt {offset start : ℕ} {t : ItemType}
    (h : start ∈ subitemsAt layout data offset t) : offset + itemHeaderSize ≤ start := by
  unfold subitemsAt at h
  split_ifs at h with hobj hcs
  · cases h; have := layout.itemHeaderSize_le t; omega
  · cases h; have := layout.itemHeaderSize_le .changeset; omega
  · cases h

/-- Where sub-items start depends only on the bytes between the item's header and that start. -/
theorem subitemsAt_congr {data' : List UInt8} {offset stop : ℕ} {t : ItemType}
    (hstop : ∀ st ∈ subitemsAt layout data offset t, st ≤ stop)
    (hdata : ∀ i, offset + itemHeaderSize ≤ i → i < stop → data'[i]? = data[i]?) :
    subitemsAt layout data' offset t = subitemsAt layout data offset t := by
  unfold subitemsAt at *
  have h8 : itemHeaderSize = 8 := rfl
  split_ifs at hstop ⊢ with hobj hcs
  · have := hstop _ rfl
    have := layout.itemHeaderSize_le t
    have := le_paddedLength (2 + readLE data (offset + layout.sizeOf t) 2)
    rw [readLE_congr fun i h₁ h₂ => hdata i (by omega) (by omega)]
  · have := hstop _ rfl
    have := layout.itemHeaderSize_le_changesetUserSizeOffset
    have := layout.changesetUserSizeOffset_add_le
    rw [readLE_congr fun i h₁ h₂ => hdata i (by omega) (by omega)]
  · rfl

/-- The sub-item walk of an item reads only the item's bytes. -/
theorem SubitemsWalk.congr {data' : List UInt8} {offset : ℕ} (h : SubitemsWalk layout data offset)
    (hsize : itemHeaderSize ≤ byteSize data offset)
    (hdata : ∀ i, offset ≤ i → i < nextItem data offset → data'[i]? = data[i]?) :
    SubitemsWalk layout data' offset := by
  have hnext := add_itemHeaderSize_le_nextItem hsize
  have h8 : itemHeaderSize = 8 := rfl
  have htype : typeCode data' offset = typeCode data offset := readLE_congr fun i h₁ h₂ => hdata i (by omega) (by omega)
  have hnext' : nextItem data' offset = nextItem data offset := nextItem_congr fun i h₁ h₂ => hdata i h₁ (by omega)
  intro st hst
  rw [subitemsStart, htype] at hst
  rcases hcode : ItemType.ofCode? (typeCode data offset) with _ | t
  · rw [hcode] at hst; cases hst
  · have hat : ∀ st ∈ subitemsAt layout data offset t, ItemSeq (fun _ => True) data st (nextItem data offset) :=
      fun st hst => h st (by rw [subitemsStart, hcode]; exact hst)
    rw [hcode, Option.some_bind, subitemsAt_congr (fun st hst => (hat st hst).le)
      (fun i h₁ h₂ => hdata i (by omega) h₂)] at hst
    have hst₀ := add_itemHeaderSize_le_of_mem_subitemsAt hst
    rw [hnext']
    exact (hat st hst).congr (fun i h₁ h₂ => hdata i (by omega) h₂) fun _ _ _ _ => trivial

/-- A walk over top-level items, with their sub-items, carries over to bytes that agree on its range. -/
theorem ItemSeq.congr_subitems {data' : List UInt8} {o e : ℕ} (h : ItemSeq (SubitemsWalk layout data) data o e)
    (hdata : ∀ i, o ≤ i → i < e → data'[i]? = data[i]?) : ItemSeq (SubitemsWalk layout data') data' o e :=
  h.congr hdata fun _ hsize hx hagree => hx.congr hsize hagree

end Memory

/-! ### Open items -/

namespace OpenBuilder

/-- The kind of the item an open builder builds. -/
def type : OpenBuilder → ItemType
  | object ob => ob.type
  | changeset _ => .changeset
  | tagList _ => .tagList
  | nodeRefList nb => nb.type
  | memberList _ => .relationMemberList
  | discussion _ => .changesetDiscussion

/-- The builder's class is one the sources have: an object builder builds a node, a way, a relation
or an area, and a node reference list builder a way node list or a ring. -/
def Kinded : OpenBuilder → Prop
  | object ob => ob.type.isOSMObject
  | nodeRefList nb => (nb.type == .wayNodeList || nb.type == .outerRing || nb.type == .innerRing) = true
  | _ => True

variable {layout : Layout}

/-- The reader finds no sub-items in the item of a derived builder. -/
theorem subitemsAt_eq_none {b : OpenBuilder} (hb : b.isObject = false) (hk : b.Kinded) (data : List UInt8)
    (offset : ℕ) : subitemsAt layout data offset b.type = none := by
  cases b with
  | object _ | changeset _ => cases hb
  | nodeRefList nb =>
    obtain ⟨_, t⟩ := nb
    cases t <;> first | rfl | simp [Kinded] at hk
  | _ => rfl

/-- The item of an open builder as the reader sees it while the builder's finished part ends at
`stop`: its header names the builder's kind, and its finished sub-items, if its kind has any, walk
to `stop`. -/
structure Opened (layout : Layout) (data : List UInt8) (b : OpenBuilder) (stop : ℕ) : Prop where
  /-- The header names the builder's kind. -/
  header : typeCode data b.toBuilder.itemOffset = b.type.code
  /-- The builder's class is one of the sources'. -/
  kinded : b.Kinded
  /-- The finished sub-items walk to `stop`. -/
  subitems : ∀ st ∈ subitemsAt layout data b.toBuilder.itemOffset b.type, ItemSeq (fun _ => True) data st stop

namespace Opened

variable {data : List UInt8} {b : OpenBuilder} {stop : ℕ}

/-- A derived builder's item is opened as soon as its header names its kind. -/
theorem of_derived (hb : b.isObject = false) (hk : b.Kinded) (hheader : typeCode data b.toBuilder.itemOffset = b.type.code)
    (stop : ℕ) : b.Opened layout data stop :=
  ⟨hheader, hk, fun st hst => by rw [subitemsAt_eq_none hb hk] at hst; cases hst⟩

/-- The open item carries over to bytes that agree from the end of its size field to `stop`. -/
theorem congr (h : b.Opened layout data stop) (hin : b.toBuilder.itemOffset + itemHeaderSize ≤ stop)
    {data' : List UInt8} (hdata : ∀ i, b.toBuilder.itemOffset + 4 ≤ i → i < stop → data'[i]? = data[i]?) :
    b.Opened layout data' stop := by
  have h8 : itemHeaderSize = 8 := rfl
  have hat := subitemsAt_congr (fun st hst => (h.subitems st hst).le) fun i h₁ h₂ => hdata i (by omega) h₂
  refine ⟨(readLE_congr fun i h₁ h₂ => hdata i h₁ (by omega)).trans h.header, h.kinded, fun st hst => ?_⟩
  rw [hat] at hst
  have := add_itemHeaderSize_le_of_mem_subitemsAt hst
  exact (h.subitems st hst).congr (fun i h₁ h₂ => hdata i (by omega) h₂) fun _ _ _ _ => trivial

/-- A finished sub-item at the end of the walk. -/
theorem snoc (h : b.Opened layout data stop) (hsize : itemHeaderSize ≤ byteSize data stop) :
    b.Opened layout data (nextItem data stop) :=
  ⟨h.header, h.kinded, fun st hst => (h.subitems st hst).snoc hsize trivial⟩

/-- Once the builder's finished part is its whole item, the reader walks the item's sub-items to its
end. -/
theorem subitemsWalk (h : b.Opened layout data (nextItem data b.toBuilder.itemOffset)) :
    SubitemsWalk layout data b.toBuilder.itemOffset :=
  fun st hst => h.subitems st (by rwa [subitemsStart_eq h.header] at hst)

end Opened

end OpenBuilder

/-! ### What the calls leave at the end of the written part -/

section Items

variable (layout : Layout) (a : Allocator) {buf : Buffer}

/-- A derived builder's constructor writes a header that names its kind. -/
theorem typeCode_make_write {parent : Option Builder} (hparent : ∀ p ∈ parent, p.ItemsBefore buf.data.length)
    (t : ItemType) :
    typeCode ((Builder.make a buf parent (layout.sizeOf t)).2.write buf.data.length (layout.image t)).data
      buf.data.length = t.code :=
  typeCode_of_drop_eq (drop_make_write a hparent (layout.length_image t))

/-- An object's or a changeset's constructor writes a header that names its kind, and sets
`user_size` to one. -/
theorem typeCode_makeWithUserSlot {parent : Option Builder} (hparent : ∀ p ∈ parent, p.ItemsBefore buf.data.length)
    (type : ItemType) {minSizeForUser userSizeOffset : ℕ} (hU : itemHeaderSize ≤ userSizeOffset)
    (hU' : userSizeOffset + 2 ≤ layout.sizeOf type + minSizeForUser) :
    typeCode (makeWithUserSlot layout a type minSizeForUser userSizeOffset buf parent).2.data buf.data.length = type.code ∧
      readLE (makeWithUserSlot layout a type minSizeForUser userSizeOffset buf parent).2.data
        (buf.data.length + userSizeOffset) 2 = 1 := by
  have hdrop := @drop_makeWithUserSlot layout a buf parent hparent type minSizeForUser userSizeOffset hU hU'
  refine ⟨typeCode_of_drop_eq hdrop, ?_⟩
  have hF := layout.itemHeaderSize_le type
  have hread : readBytes (writeBytes (List.replicate (layout.sizeOf type - itemHeaderSize + minSizeForUser) 0)
      (userSizeOffset - itemHeaderSize) (encodeLE 2 1)) (userSizeOffset - itemHeaderSize) 2 = encodeLE 2 1 :=
    readBytes_writeBytes (by simp only [length_encodeLE, List.length_replicate]; omega)
  rw [readLE_add_of_drop_eq hdrop, drop_itemHeader_append hU, ← readBytes, hread, decodeLE_encodeLE]
  rfl

/-- `set_user(user, length)` that returns normally: its assertion held, the written part grew by the
extra reservation, and `user_size` holds `length + 1` in its 16 bits. -/
theorem setUserWith_of_ok {b : Builder} (h : SizesMatch b buf) {nameOffset userSizeOffset sizeBound availableSpace : ℕ}
    (hNfit : b.itemOffset + nameOffset + availableSpace ≤ buf.data.length)
    (hUfit : b.itemOffset + userSizeOffset + 2 ≤ buf.data.length) {user : List UInt8} {length : ℕ}
    (hok : (setUserWith a nameOffset userSizeOffset sizeBound availableSpace b buf user length).1 = .ok ()) :
    readLE buf.data (b.itemOffset + userSizeOffset) 2 = 1 ∧ b.size buf ≤ sizeBound ∧
      (setUserWith a nameOffset userSizeOffset sizeBound availableSpace b buf user length).2.data.length =
        buf.data.length + setUserExtra availableSpace length ∧
      readLE (setUserWith a nameOffset userSizeOffset sizeBound availableSpace b buf user length).2.data
        (b.itemOffset + userSizeOffset) 2 = (length + 1) % 2 ^ 16 := by
  have hextra : length ≤ availableSpace + setUserExtra availableSpace length := by
    unfold setUserExtra; split_ifs <;> have := le_paddedLength (length - availableSpace) <;> omega
  -- the name, then `user_size`, written over what is reserved
  have hwrites : ∀ buf₁ : Buffer, buf₁.data.length = buf.data.length + setUserExtra availableSpace length →
      let buf₂ := (buf₁.write (b.itemOffset + nameOffset) (user.take length)).write (b.itemOffset + userSizeOffset)
        (encodeLE 2 (length + 1))
      buf₂.data.length = buf.data.length + setUserExtra availableSpace length ∧
        readLE buf₂.data (b.itemOffset + userSizeOffset) 2 = (length + 1) % 2 ^ 16 := by
    intro buf₁ hlen₁
    have htake := List.length_take_le length user
    have hname : (writeBytes buf₁.data (b.itemOffset + nameOffset) (user.take length)).length = buf₁.data.length :=
      length_writeBytes (by omega)
    have hread := @readBytes_writeBytes (writeBytes buf₁.data (b.itemOffset + nameOffset) (user.take length))
      (b.itemOffset + userSizeOffset) (encodeLE 2 (length + 1)) (by rw [length_encodeLE, hname]; omega)
    rw [length_encodeLE] at hread
    refine ⟨(length_writeBytes (by rw [length_encodeLE, Buffer.write_data, hname]; omega)).trans (hname.trans hlen₁), ?_⟩
    rw [readLE, Buffer.write_data, Buffer.write_data, hread, decodeLE_encodeLE, two_pow_16]
  unfold setUserWith at hok ⊢
  split_ifs at hok ⊢ with hcheck hA
  · -- the extra reservation, counted by the open items
    refine ⟨hcheck.1, hcheck.2, hwrites _ ?_⟩
    have hdata := Buffer.reserveSpace_write_data a buf (List.replicate (paddedLength (length - availableSpace)) 0)
    rw [List.length_replicate] at hdata
    rw [length_addSize (fun o ho => (h.itemsBefore o ho).trans (by rw [hdata, List.length_append]; omega)), hdata,
      List.length_append, List.length_replicate, setUserExtra, if_pos hA]
  · exact ⟨hcheck.1, hcheck.2, hwrites _ (by rw [setUserExtra, if_neg hA]; rfl)⟩

/-- `set_user(user, length)` that returns normally on an item whose fixed part of `F` bytes is followed
by a slot of `align_bytes` bytes ending the written part, with `k` bytes before the name, for a name
whose `user_size` does not wrap: the slot, the name and the extra reservation end where the sub-items
start, `padded_length(k + user_size)` bytes after the fixed part. The assertion's bound on the size,
with the alignment, leaves the slot as the only bytes after the fixed part. -/
theorem setUserWith_subitems {b : Builder} (h : SizesMatch b buf) {F k userSizeOffset : ℕ} (hk : k + 1 ≤ alignBytes)
    (hU : userSizeOffset + 2 ≤ F + alignBytes) (hF : F % alignBytes = 0) (hio : b.itemOffset % alignBytes = 0)
    (hlen : buf.data.length % alignBytes = 0) (hslot : b.itemOffset + F + alignBytes ≤ buf.data.length)
    (hsmall : buf.data.length - b.itemOffset < 2 ^ 32) {user : List UInt8} {length : ℕ} (hlength : length + 1 < 2 ^ 16)
    (hok : (setUserWith a (F + k) userSizeOffset (F + k + paddedLength 1) (paddedLength (k + 1) - (k + 1)) b buf
      user length).1 = .ok ()) :
    b.itemOffset + F + paddedLength (k + readLE (setUserWith a (F + k) userSizeOffset (F + k + paddedLength 1)
        (paddedLength (k + 1) - (k + 1)) b buf user length).2.data (b.itemOffset + userSizeOffset) 2) =
      (setUserWith a (F + k) userSizeOffset (F + k + paddedLength 1) (paddedLength (k + 1) - (k + 1)) b buf user
        length).2.data.length := by
  unfold alignBytes at hk hU hF hio hlen hslot
  have hpad : paddedLength (k + 1) = 8 := by unfold paddedLength alignBytes; omega
  obtain ⟨-, hbound, hlen', huser⟩ := setUserWith_of_ok a h (by rw [hpad]; omega) (by omega) hok
  have hs : b.size buf = buf.data.length - b.itemOffset :=
    (h.sizes _ (List.mem_cons_self _ _)).trans (Nat.mod_eq_of_lt hsmall)
  have hp1 : paddedLength 1 = 8 := rfl
  rw [hs, hp1] at hbound
  have hextra := paddedLength_add_setUserExtra (k + 1) length
  rw [huser, Nat.mod_eq_of_lt hlength, hlen', show k + (length + 1) = k + 1 + length by omega]
  omega

/-- An item whose size is its bytes and whose end is a whole number of alignment units after its
start: the walk steps over it to the end of the written part. -/
theorem SizesMatch.nextItem_of_aligned {b : Builder} (h : SizesMatch b buf)
    (hsmall : buf.data.length - b.itemOffset < 2 ^ 32) (hio : b.itemOffset % alignBytes = 0)
    (hlen : buf.data.length % alignBytes = 0) :
    itemHeaderSize ≤ byteSize buf.data b.itemOffset ∧ nextItem buf.data b.itemOffset = buf.data.length := by
  have hin := h.inside
  have hs := (h.sizes _ (List.mem_cons_self _ _)).trans (Nat.mod_eq_of_lt hsmall)
  rw [nextItem, hs]
  unfold paddedLength itemHeaderSize alignBytes at *
  omega

/-- `add_padding()` of a builder whose size is its bytes: the walk steps over the item to the new
end of the written part. -/
theorem SizesMatch.nextItem_addPadding {b : Builder} (h : SizesMatch b buf)
    (hsmall : buf.data.length - b.itemOffset < 2 ^ 32) :
    itemHeaderSize ≤ byteSize (b.addPadding a buf false).data b.itemOffset ∧
      nextItem (b.addPadding a buf false).data b.itemOffset = (b.addPadding a buf false).data.length := by
  have hin := h.inside
  unfold itemHeaderSize at hin
  obtain ⟨hsize, hlen⟩ := size_addPadding_false a h.parentsBefore (show b.itemOffset + 4 ≤ buf.data.length by omega)
  have hs : b.size buf = buf.data.length - b.itemOffset :=
    (h.sizes _ (List.mem_cons_self _ _)).trans (Nat.mod_eq_of_lt hsmall)
  have hle := le_paddedLength (buf.data.length - b.itemOffset)
  rw [hs] at hsize hlen
  unfold Builder.size at hsize
  refine ⟨by rw [hsize]; unfold itemHeaderSize; omega, ?_⟩
  rw [nextItem, hsize, hlen]
  omega

/-- A derived builder's destructor, when it returns normally, is `add_padding()`. -/
theorem OpenBuilder.destroy_eq_addPadding {b : OpenBuilder} (hb : b.isObject = false) {buf' : Buffer}
    (hd : b.destroy a buf = (.ok (), buf')) : buf' = b.toBuilder.addPadding a buf false := by
  cases b with
  | object _ | changeset _ => cases hb
  | tagList _ | nodeRefList _ | memberList _ => cases hd; rfl
  | discussion db =>
    dsimp only [OpenBuilder.destroy, ChangesetDiscussionBuilder.destroy] at hd
    split_ifs at hd
    · cases hd; rfl
    · cases hd

/-- `add_tags` appends one tag list item, which the walk steps over to the new end of the written
part. -/
theorem SizesMatch.nextItem_addTags {ob : OSMObjectBuilder} (h : SizesMatch ob.toBuilder buf)
    (tags : List (CString × CString)) (hsmall : (ob.addTags layout a buf tags).2.data.length - buf.data.length < 2 ^ 32) :
    itemHeaderSize ≤ byteSize (ob.addTags layout a buf tags).2.data buf.data.length ∧
      nextItem (ob.addTags layout a buf tags).2.data buf.data.length = (ob.addTags layout a buf tags).2.data.length := by
  have hrun := SizesMatch.runAddTags a (show SizesMatch (⟨_⟩ : TagListBuilder).toBuilder _ from
    h.make_write_some layout a .tagList) (tags.map fun p => .cStrings p.1 p.2)
  exact hrun.nextItem_addPadding a ((Nat.sub_le_sub_right (Builder.grows_addPadding a _ _ false).length_le _).trans_lt hsmall)

/-- `add_node_refs` appends one way node list item, which the walk steps over to the new end of the
written part. -/
theorem SizesMatch.nextItem_addNodeRefs {ob : OSMObjectBuilder} (h : SizesMatch ob.toBuilder buf)
    (nodes : List NodeRef) (hsmall : (ob.addNodeRefs layout a buf nodes).data.length - buf.data.length < 2 ^ 32) :
    itemHeaderSize ≤ byteSize (ob.addNodeRefs layout a buf nodes).data buf.data.length ∧
      nextItem (ob.addNodeRefs layout a buf nodes).data buf.data.length = (ob.addNodeRefs layout a buf nodes).data.length := by
  have hrun := SizesMatch.foldl_addNodeRef a (show SizesMatch (⟨_, .wayNodeList⟩ : NodeRefListBuilder).toBuilder _ from
    h.make_write_some layout a .wayNodeList) nodes
  exact hrun.nextItem_addPadding a ((Nat.sub_le_sub_right (Builder.grows_addPadding a _ _ false).length_le _).trans_lt hsmall)

end Items

/-! ### Sessions -/

/-- The calls whose arguments the C++ classes admit: an object builder is a `NodeBuilder`,
`WayBuilder`, `RelationBuilder` or `AreaBuilder`; a node reference list builder builds a
`WayNodeList`, an `OuterRing` or an `InnerRing`; and `set_user(user, length)` is given a length below
`std::numeric_limits<string_size_type>::max()`, as every one-argument overload asserts but
`ChangesetBuilder::set_user(const char*)`. -/
def Op.admitted : Op → Bool
  | .newObject type => type.isOSMObject
  | .newNodeRefList type => type == .wayNodeList || type == .outerRing || type == .innerRing
  | .setUser _ length => decide (length < 2 ^ 16 - 1)
  | _ => true

namespace Session

variable (layout : Layout) (a : Allocator)

/-- One call with arguments the C++ classes admit, of a session that constructs object and changeset
builders only at the top level and derived builders only there or on an object or changeset
builder. -/
def AdmittedStep (s s' : Session) : Prop :=
  ∃ op : Op, op.admitted ∧ (op.opensObject → s.stack = []) ∧ (op.opensDerived → ∀ b ∈ s.stack.head?, b.isObject) ∧
    s.step layout a op = some s'

theorem AdmittedStep.objectStep {s s' : Session} (h : AdmittedStep layout a s s') : ObjectStep layout a s s' :=
  let ⟨op, _, hop, hder, hs⟩ := h
  ⟨op, hop, hder, hs⟩

/-- What the walk keeps along a session that started at `start`: the finished top-level items walk
from `start` to the outermost open item, or to the end of the written part when none is open; the
outermost open item is opened, its finished sub-items walking to the builder on it or to the end of
the written part; and a builder on it is not an object or changeset builder. -/
def Walks (start : ℕ) (s : Session) : Prop :=
  match s.stack with
  | [] => ItemSeq (SubitemsWalk layout s.buf.data) s.buf.data start s.buf.data.length
  | [x] => ItemSeq (SubitemsWalk layout s.buf.data) s.buf.data start x.toBuilder.itemOffset ∧
      x.Opened layout s.buf.data s.buf.data.length
  | [d, x] => ItemSeq (SubitemsWalk layout s.buf.data) s.buf.data start x.toBuilder.itemOffset ∧
      x.Opened layout s.buf.data d.toBuilder.itemOffset ∧ d.isObject = false
  | _ => False

variable {layout a} {start : ℕ}

/-- With no builder open, a call constructs a top-level builder at the end of the written part: the
finished items are kept, and the new item is opened with no sub-items yet. -/
theorem walks_step_nil {buf : Buffer} {s' : Session} {op : Op}
    (hw : ItemSeq (SubitemsWalk layout buf.data) buf.data start buf.data.length) (hadm : op.admitted)
    (hs : Session.step layout a ⟨buf, []⟩ op = some s') : s'.Walks layout start := by
  have hkeep := keepsOn_step (P := (· < buf.data.length)) (valid_nil layout buf) (fun _ hi => hi)
    (fun _ h => nomatch h) hs
  have htop := hw.congr_subitems fun i _ hi => hkeep.getElem?_eq i hi
  have hnone : ∀ p ∈ (none : Option Builder), p.ItemsBefore buf.data.length := fun _ h => nomatch h
  have h8 : itemHeaderSize = 8 := rfl
  cases op with
  | newObject t =>
    cases hs
    have hU' : layout.sizeOf t + 2 ≤ layout.sizeOf t + OSMObjectBuilder.minSizeForUser := Nat.add_le_add_left (by decide) _
    obtain ⟨hcode, huser⟩ := typeCode_makeWithUserSlot layout a hnone t (layout.itemHeaderSize_le t) hU'
    have hlen := (@sizesMatch_makeWithUserSlot layout a buf t _ _ (layout.itemHeaderSize_le t) hU').2
    refine ⟨htop, hcode, hadm, fun st hst => ?_⟩
    change st ∈ subitemsAt layout (makeWithUserSlot layout a t _ _ buf none).2.data buf.data.length t at hst
    rw [subitemsAt, if_pos (show t.isOSMObject = true from hadm), huser] at hst
    cases hst
    exact ItemSeq.nil_of_eq (by rw [Nat.add_assoc]; exact hlen.symm)
  | newChangeset =>
    cases hs
    have hU' := layout.changesetUserSizeOffset_add_le.trans (Nat.le_add_right _ ChangesetBuilder.minSizeForUser)
    obtain ⟨hcode, huser⟩ := typeCode_makeWithUserSlot layout a hnone .changeset
      layout.itemHeaderSize_le_changesetUserSizeOffset hU'
    have hlen := (@sizesMatch_makeWithUserSlot layout a buf .changeset _ _ layout.itemHeaderSize_le_changesetUserSizeOffset hU').2
    refine ⟨htop, hcode, trivial, fun st hst => ?_⟩
    change st ∈ subitemsAt layout (makeWithUserSlot layout a .changeset _ _ buf none).2.data buf.data.length
      .changeset at hst
    rw [subitemsAt, if_neg (by decide), if_pos rfl, huser] at hst
    cases hst
    exact ItemSeq.nil_of_eq (by rw [Nat.add_assoc]; exact hlen.symm)
  | newTagList => cases hs; exact ⟨htop, .of_derived (by rfl) (by exact trivial) (typeCode_make_write layout a hnone _) _⟩
  | newNodeRefList t => cases hs; exact ⟨htop, .of_derived (by rfl) (by exact hadm) (typeCode_make_write layout a hnone _) _⟩
  | newMemberList => cases hs; exact ⟨htop, .of_derived (by rfl) (by exact trivial) (typeCode_make_write layout a hnone _) _⟩
  | newDiscussion => cases hs; exact ⟨htop, .of_derived (by rfl) (by exact trivial) (typeCode_make_write layout a hnone _) _⟩
  | _ => simp only [Session.step, reduceCtorEq] at hs

section OneOpen

variable {buf buf' : Buffer} {x : OpenBuilder}

/-- With one builder open, the only size field is its own. -/
theorem Valid.sparesSizes_top (hv : Valid layout ⟨buf, [x]⟩) (Q : ℕ → Prop) :
    x.toBuilder.SparesSizes fun i => Q i ∧ (i < x.toBuilder.itemOffset ∨ x.toBuilder.itemOffset + 4 ≤ i) :=
  fun o ho _ hi => by
    rw [Builder.chain, show x.toBuilder.parentOffsets = [] from hv.linked, List.mem_singleton] at ho
    exact ho ▸ hi.2

/-- With one builder open, its calls spare its header but for the size field, and what precedes it. -/
theorem Valid.spares_header (hv : Valid layout ⟨buf, [x]⟩) :
    x.toBuilder.Spares fun i => i < x.toBuilder.itemOffset + itemHeaderSize ∧
      (i < x.toBuilder.itemOffset ∨ x.toBuilder.itemOffset + 4 ≤ i) :=
  ⟨fun _ hi => hi.1, hv.sparesSizes_top _⟩

/-- With one builder open, no call writes its header but for the size field, nor what precedes it. -/
theorem keepsOn_header_step {s' : Session} {op : Op} (hv : Valid layout ⟨buf, [x]⟩)
    (hs : Session.step layout a ⟨buf, [x]⟩ op = some s') :
    buf.KeepsOn (fun i => i < x.toBuilder.itemOffset + itemHeaderSize ∧
      (i < x.toBuilder.itemOffset ∨ x.toBuilder.itemOffset + 4 ≤ i)) s'.buf := by
  have hin := hv.head.inside
  refine keepsOn_step hv (fun i hi => show i < buf.data.length by omega) (fun b hb => ?_) hs
  rw [List.head?_cons, Option.mem_def, Option.some_inj] at hb
  subst hb
  exact hv.spares_header

/-- What such a call keeps: the finished top-level items, and the open item's kind. -/
theorem Walks.keep_header (hw : Walks layout start ⟨buf, [x]⟩)
    (hkeep : buf.KeepsOn (fun i => i < x.toBuilder.itemOffset + itemHeaderSize ∧
      (i < x.toBuilder.itemOffset ∨ x.toBuilder.itemOffset + 4 ≤ i)) buf') :
    ItemSeq (SubitemsWalk layout buf'.data) buf'.data start x.toBuilder.itemOffset ∧
      typeCode buf'.data x.toBuilder.itemOffset = x.type.code := by
  have h8 : itemHeaderSize = 8 := rfl
  refine ⟨hw.1.congr_subitems fun i _ hi => hkeep.getElem?_eq i ⟨by omega, .inl hi⟩, ?_⟩
  exact (readLE_congr fun i h₁ h₂ => hkeep.getElem?_eq i ⟨by omega, .inr h₁⟩).trans hw.2.header

/-- A derived builder constructed on the only open builder: the open item's finished sub-items walk
to the new item. -/
theorem Walks.push (hw : Walks layout start ⟨buf, [x]⟩) (hx : x.toBuilder.parentOffsets = [])
    (hin : x.toBuilder.itemOffset + itemHeaderSize ≤ buf.data.length) (t : ItemType) {d : OpenBuilder}
    (hd : d.isObject = false) (hdb : d.toBuilder = (Builder.make a buf (some x.toBuilder) (layout.sizeOf t)).1) :
    Walks layout start
      ⟨(Builder.make a buf (some x.toBuilder) (layout.sizeOf t)).2.write buf.data.length (layout.image t), [d, x]⟩ := by
  have hkeep := keepsOn_make_write a (some x.toBuilder)
    (P := fun i => i < buf.data.length ∧ (i < x.toBuilder.itemOffset ∨ x.toBuilder.itemOffset + 4 ≤ i))
    (fun p hp o ho i hi => by cases hp; rw [Builder.chain, hx, List.mem_singleton] at ho; exact ho ▸ hi.2)
    (fun i hi => hi.1) (layout.sizeOf t) (layout.image t)
  have hle := hw.1.le
  refine ⟨hw.1.congr_subitems fun i _ hi => hkeep.getElem?_eq i ⟨by omega, .inl hi⟩, ?_, hd⟩
  rw [hdb, make_fst]
  exact hw.2.congr hin fun i h₁ h₂ => hkeep.getElem?_eq i ⟨h₂, .inr h₁⟩

/-- An item appended on the only open builder by a call that keeps the rest of the written part but
the builder's size field: the open item's finished sub-items walk over it. -/
theorem Walks.append (hw : Walks layout start ⟨buf, [x]⟩) (hin : x.toBuilder.itemOffset + itemHeaderSize ≤ buf.data.length)
    (hkeep : buf.KeepsOn (fun i => i < buf.data.length ∧
      (i < x.toBuilder.itemOffset ∨ x.toBuilder.itemOffset + 4 ≤ i)) buf')
    (hsize : itemHeaderSize ≤ byteSize buf'.data buf.data.length)
    (hnext : nextItem buf'.data buf.data.length = buf'.data.length) : Walks layout start ⟨buf', [x]⟩ := by
  have hle := hw.1.le
  refine ⟨hw.1.congr_subitems fun i _ hi => hkeep.getElem?_eq i ⟨by omega, .inl hi⟩, ?_⟩
  show x.Opened layout buf'.data buf'.data.length
  rw [← hnext]
  exact (hw.2.congr hin fun i h₁ h₂ => hkeep.getElem?_eq i ⟨h₂, .inr h₁⟩).snoc hsize

/-- The only open builder destroyed, once its item is whole: the walk steps over the item, with its
sub-items, to the end of the written part. -/
theorem Walks.close (htop : ItemSeq (SubitemsWalk layout buf'.data) buf'.data start x.toBuilder.itemOffset)
    (hopen : x.Opened layout buf'.data buf'.data.length) (hsize : itemHeaderSize ≤ byteSize buf'.data x.toBuilder.itemOffset)
    (hnext : nextItem buf'.data x.toBuilder.itemOffset = buf'.data.length) : Walks layout start ⟨buf', []⟩ := by
  rw [← hnext] at hopen
  show ItemSeq _ _ start buf'.data.length
  rw [← hnext]
  exact htop.snoc hsize hopen.subitemsWalk

/-- With one derived builder open, every call keeps its item opened, and its destructor pads the item,
which has no sub-items for the walk to visit. -/
theorem walks_step_top_derived {s' : Session} {op : Op} (hv : Valid layout ⟨buf, [x]⟩) (hx : x.isObject = false)
    (hw : Walks layout start ⟨buf, [x]⟩) (hop : op.opensObject → [x] = [])
    (hder : op.opensDerived → ∀ b ∈ [x].head?, b.isObject) (hsmall : s'.buf.data.length < start + 2 ^ 32)
    (hs : Session.step layout a ⟨buf, [x]⟩ op = some s') : s'.Walks layout start := by
  obtain ⟨buf', stack'⟩ := s'
  change buf'.data.length < _ at hsmall
  have hgrow : buf.data.length ≤ buf'.data.length := length_le_step hv hs
  have hle := hw.1.le
  obtain ⟨htop, hheader⟩ := hw.keep_header (keepsOn_header_step hv hs)
  rcases stack_step hs with ⟨_, -, -, hopens | hopens⟩ | hstack | ⟨db, db', rest, hstack, hstack', hb⟩ | ⟨b, hstack, hd⟩
  · cases hop hopens
  · cases hx.symm.trans (hder hopens x rfl)
  · obtain rfl : stack' = [x] := hstack
    exact ⟨htop, .of_derived hx hw.2.kinded hheader _⟩
  · -- `add_comment` and `add_comment_text` keep the discussion's item
    obtain ⟨rfl, rfl⟩ := List.cons.inj hstack
    obtain rfl : stack' = [.discussion db'] := hstack'
    refine ⟨show ItemSeq _ _ _ db'.toBuilder.itemOffset by rw [hb]; exact htop,
      .of_derived (by rfl) (by exact trivial) (show typeCode _ db'.toBuilder.itemOffset = _ by rw [hb]; exact hheader) _⟩
  · obtain ⟨rfl, hrest⟩ := List.cons.inj hstack
    obtain rfl : [] = stack' := hrest
    obtain ⟨hsize, hnext⟩ := hv.head.nextItem_addPadding a
      (show buf.data.length - x.toBuilder.itemOffset < 2 ^ 32 by omega)
    rw [← OpenBuilder.destroy_eq_addPadding a hx hd] at hsize hnext
    exact Walks.close htop (.of_derived hx hw.2.kinded hheader _) hsize hnext

/-- With one object or changeset builder open: a derived builder constructed on it starts where its
finished sub-items end; `set_user` makes the sub-items start at the new end of the written part;
`add_tags` and `add_node_refs` append one whole sub-item; and the destructor, which writes nothing,
leaves an item whose size is its bytes, a whole number of alignment units. -/
theorem walks_step_top_object {s' : Session} {op : Op} (hv : Valid layout ⟨buf, [x]⟩) (ha : Aligned ⟨buf, [x]⟩)
    (hx : x.isObject) (hw : Walks layout start ⟨buf, [x]⟩) (hadm : op.admitted) (hop : op.opensObject → [x] = [])
    (hsmall : s'.buf.data.length < start + 2 ^ 32) (hs : Session.step layout a ⟨buf, [x]⟩ op = some s') :
    s'.Walks layout start := by
  have h := hv.head
  have hin := h.inside
  have hio : x.toBuilder.itemOffset % alignBytes = 0 := ha.offsets x (List.mem_cons_self _ _)
  have hlen : buf.data.length % alignBytes = 0 := (ha.settled x rfl).aligned hx
  have hle := hw.1.le
  have hgrow : buf.data.length ≤ s'.buf.data.length := length_le_step hv hs
  have hnew : s'.buf.data.length - buf.data.length < 2 ^ 32 := by omega
  have hsmall' : buf.data.length - x.toBuilder.itemOffset < 2 ^ 32 := by omega
  -- what an appended sub-item spares: the written part but the object's size field
  have hsp := hv.sparesSizes_top (· < buf.data.length)
  cases op with
  | newObject _ | newChangeset => cases hop rfl
  | newTagList => cases hs; exact hw.push hv.linked hin .tagList (by rfl) (by rfl)
  | newNodeRefList t => cases hs; exact hw.push hv.linked hin t (by rfl) (by rfl)
  | newMemberList => cases hs; exact hw.push hv.linked hin .relationMemberList (by rfl) (by rfl)
  | newDiscussion => cases hs; exact hw.push hv.linked hin .changesetDiscussion (by rfl) (by rfl)
  | setUser user length =>
    obtain ⟨htop, hheader⟩ := hw.keep_header (keepsOn_header_step hv hs)
    have hlength : length + 1 < 2 ^ 16 := by
      have : length < 2 ^ 16 - 1 := of_decide_eq_true hadm
      omega
    cases x with
    | object ob =>
      simp only [Session.step] at hs
      obtain ⟨hok, rfl⟩ := eq_of_after hs
      have hend := setUserWith_subitems a h (F := layout.sizeOf ob.type) (k := 2) (by decide)
        (Nat.add_le_add_left (by decide) _) (layout.sizeOf_aligned _) hio hlen hv.ready_head hsmall' hlength hok
      refine ⟨htop, hheader, hw.2.kinded, fun st hst => ?_⟩
      rw [subitemsAt, if_pos (show (OpenBuilder.object ob).type.isOSMObject = true from hw.2.kinded)] at hst
      cases hst
      exact .nil_of_eq hend
    | changeset cb =>
      simp only [Session.step] at hs
      obtain ⟨hok, rfl⟩ := eq_of_after hs
      have hend := setUserWith_subitems a h (F := layout.sizeOf .changeset) (k := 0) (by decide)
        (layout.changesetUserSizeOffset_add_le.trans (Nat.le_add_right _ _)) (layout.sizeOf_aligned _) hio hlen
        hv.ready_head hsmall' hlength hok
      rw [Nat.zero_add] at hend
      refine ⟨htop, hheader, trivial, fun st hst => ?_⟩
      rw [subitemsAt, if_neg (show ¬(OpenBuilder.changeset cb).type.isOSMObject = true from Bool.false_ne_true),
        if_pos (show (OpenBuilder.changeset cb).type = .changeset from rfl)] at hst
      cases hst
      exact .nil_of_eq hend
    | _ => cases hx
  | addTags tags =>
    cases x with
    | object ob =>
      simp only [Session.step] at hs
      obtain ⟨-, rfl⟩ := eq_of_after hs
      obtain ⟨hsize, hnext⟩ := h.nextItem_addTags layout a tags hnew
      exact hw.append hin (keepsOn_addTags a layout hsp (fun i hi => hi.1) tags) hsize hnext
    | _ => simp only [Session.step, reduceCtorEq] at hs
  | addNodeRefs nodes =>
    cases x with
    | object ob =>
      simp only [Session.step] at hs
      split at hs
      · cases hs
        obtain ⟨hsize, hnext⟩ := h.nextItem_addNodeRefs layout a nodes hnew
        exact hw.append hin (keepsOn_addNodeRefs a layout hsp (fun i hi => hi.1) nodes) hsize hnext
      · cases hs
    | _ => simp only [Session.step, reduceCtorEq] at hs
  | close =>
    have hd : x.destroy a buf = (.ok (), buf) := by cases x <;> first | rfl | cases hx
    obtain ⟨buf', stack'⟩ := s'
    simp only [Session.step, hd, Option.some.injEq, Session.mk.injEq] at hs
    obtain ⟨rfl, rfl⟩ := hs
    obtain ⟨hsize, hnext⟩ := h.nextItem_of_aligned hsmall' hio hlen
    exact Walks.close hw.1 hw.2 hsize hnext
  | addTag _ | addNodeRef _ | addMember _ _ _ _ | addComment _ _ _ | addCommentText _ =>
    cases x <;> simp only [Session.step, reduceCtorEq, OpenBuilder.isObject] at hs hx

/-- With a builder open on another, the inner builder's calls spare what precedes its item but the
outer item's size field; the outer item's header precedes the inner item. -/
theorem Valid.spares_inner {d : OpenBuilder} (hv : Valid layout ⟨buf, [d, x]⟩) :
    d.toBuilder.Spares (fun i => i < d.toBuilder.itemOffset ∧
      (i < x.toBuilder.itemOffset ∨ x.toBuilder.itemOffset + 4 ≤ i)) ∧
      x.toBuilder.itemOffset + itemHeaderSize ≤ d.toBuilder.itemOffset := by
  obtain ⟨hdx, hxp⟩ : d.toBuilder.parentOffsets = x.toBuilder.chain ∧ x.toBuilder.parentOffsets = [] := hv.linked
  have hchain : d.toBuilder.chain = [d.toBuilder.itemOffset, x.toBuilder.itemOffset] := by
    rw [Builder.chain, hdx, Builder.chain, hxp]
  have hpair := hv.head.nested
  rw [hchain] at hpair
  refine ⟨⟨fun _ hi => hi.1.trans_le (Nat.le_add_right _ _), fun o ho _ hi => ?_⟩,
    List.rel_of_pairwise_cons hpair (List.mem_singleton_self _)⟩
  rw [hchain, List.mem_pair] at ho
  rcases ho with rfl | rfl
  · exact .inl hi.1
  · exact hi.2

/-- What a call of the inner builder keeps: the finished top-level items, and the outer item opened up
to the inner one. -/
theorem Walks.congr_inner {d : OpenBuilder} (hv : Valid layout ⟨buf, [d, x]⟩) (hw : Walks layout start ⟨buf, [d, x]⟩)
    (hkeep : buf.KeepsOn (fun i => i < d.toBuilder.itemOffset ∧
      (i < x.toBuilder.itemOffset ∨ x.toBuilder.itemOffset + 4 ≤ i)) buf') :
    ItemSeq (SubitemsWalk layout buf'.data) buf'.data start x.toBuilder.itemOffset ∧
      x.Opened layout buf'.data d.toBuilder.itemOffset := by
  have hnest := hv.spares_inner.2
  have h8 : itemHeaderSize = 8 := rfl
  exact ⟨hw.1.congr_subitems fun i _ hi => hkeep.getElem?_eq i ⟨by omega, .inl hi⟩,
    hw.2.1.congr hnest fun i h₁ h₂ => hkeep.getElem?_eq i ⟨h₂, .inr h₁⟩⟩

/-- With a derived builder open on an object or changeset builder, every call keeps the outer item
opened to the inner one, and the inner builder's destructor pads its item, which the outer item's
sub-item walk then steps over. -/
theorem walks_step_inner {d : OpenBuilder} {s' : Session} {op : Op} (hv : Valid layout ⟨buf, [d, x]⟩)
    (hw : Walks layout start ⟨buf, [d, x]⟩) (hop : op.opensObject → [d, x] = [])
    (hder : op.opensDerived → ∀ b ∈ [d, x].head?, b.isObject) (hsmall : s'.buf.data.length < start + 2 ^ 32)
    (hs : Session.step layout a ⟨buf, [d, x]⟩ op = some s') : s'.Walks layout start := by
  obtain ⟨buf', stack'⟩ := s'
  change buf'.data.length < _ at hsmall
  have h := hv.head
  have hin := h.inside
  obtain ⟨hsp, hnest⟩ := hv.spares_inner
  unfold itemHeaderSize at hin hnest
  have hle := hw.1.le
  have hd := hw.2.2
  have hgrow : buf.data.length ≤ buf'.data.length := length_le_step hv hs
  -- the calls of the inner builder write from its item on, and the outer item's size field
  obtain ⟨htop', hopen'⟩ := hw.congr_inner hv (keepsOn_step hv
    (fun i hi => show i < buf.data.length by have := hi.1; omega) (fun b hb => by
      rw [List.head?_cons, Option.mem_def, Option.some_inj] at hb
      exact hb ▸ hsp) hs)
  rcases stack_step hs with ⟨_, -, -, hopens | hopens⟩ | hstack | ⟨db, db', rest, hstack, hstack', hb⟩ |
    ⟨b, hstack, hdestroy⟩
  · cases hop hopens
  · cases hd.symm.trans (hder hopens d rfl)
  · obtain rfl : stack' = [d, x] := hstack
    exact ⟨htop', hopen', hd⟩
  · obtain ⟨rfl, rfl⟩ := List.cons.inj hstack
    obtain rfl : stack' = [.discussion db', x] := hstack'
    exact ⟨htop', show x.Opened layout buf'.data db'.toBuilder.itemOffset by rw [hb]; exact hopen', rfl⟩
  · obtain ⟨rfl, hrest⟩ := List.cons.inj hstack
    obtain rfl : [x] = stack' := hrest
    obtain ⟨hsize, hnext⟩ := h.nextItem_addPadding a
      (show buf.data.length - d.toBuilder.itemOffset < 2 ^ 32 by omega)
    rw [← OpenBuilder.destroy_eq_addPadding a hd hdestroy] at hsize hnext
    refine ⟨htop', show x.Opened layout buf'.data buf'.data.length from ?_⟩
    rw [← hnext]
    exact hopen'.snoc hsize

end OneOpen

/-- Every admitted call keeps what the walk needs, while the session writes fewer than `2 ^ 32` bytes
from `start`. -/
theorem Walks.step {s s' : Session} {op : Op} (hv : s.Valid layout) (ha : s.Aligned) (hw : s.Walks layout start)
    (hadm : op.admitted) (hop : op.opensObject → s.stack = []) (hder : op.opensDerived → ∀ b ∈ s.stack.head?, b.isObject)
    (hsmall : s'.buf.data.length < start + 2 ^ 32) (hs : s.step layout a op = some s') : s'.Walks layout start := by
  obtain ⟨buf, _ | ⟨x, _ | ⟨x', _ | _⟩⟩⟩ := s
  · exact walks_step_nil hw hadm hs
  · cases hx : x.isObject
    · exact walks_step_top_derived hv hx hw hop hder hsmall hs
    · exact walks_step_top_object hv ha hx hw hadm hop hsmall hs
  · exact walks_step_inner hv hw hop hder hsmall hs
  · exact hw.elim

variable (layout a)

/-- Along every admitted session from an aligned buffer with no builder open, while it has written
fewer than `2 ^ 32` bytes, the walk reaches the outermost open item, or the end of the written part. -/
theorem walks_of_reaches {buf : Buffer} (hbuf : buf.data.length % alignBytes = 0) {s : Session}
    (hrun : Relation.ReflTransGen (AdmittedStep layout a) ⟨buf, []⟩ s)
    (hsmall : s.buf.data.length < buf.data.length + 2 ^ 32) : s.Walks layout buf.data.length := by
  induction hrun with
  | refl => exact ItemSeq.nil _
  | @tail s₁ s₂ hrun₁ hstep ih =>
    obtain ⟨op, hadm, hop, hder, hs⟩ := hstep
    obtain ⟨hv, ha⟩ := valid_aligned_of_reaches layout a (valid_nil layout buf)
      (aligned_of_length (fun _ h => nomatch h) hbuf) (hrun₁.mono fun _ _ h => h.objectStep)
    exact (ih ((length_le_step hv hs).trans_lt hsmall)).step hv ha hadm hop hder hsmall hs

/-- Every admitted session from a buffer whose written part ends at a multiple of `align_bytes`, that
constructs object and changeset builders only at the top level and derived builders only there or
on them, and that writes fewer than `2 ^ 32` bytes: once no builder is open, the reader's walk from
where the session started steps from item to item exactly to the end of the written part, and within
every object and changeset it visits, the walk over the sub-items steps exactly to the item's end. -/
theorem itemSeq_of_reaches {buf : Buffer} (hbuf : buf.data.length % alignBytes = 0) {s : Session}
    (hrun : Relation.ReflTransGen (AdmittedStep layout a) ⟨buf, []⟩ s) (hclosed : s.stack = [])
    (hsmall : s.buf.data.length < buf.data.length + 2 ^ 32) :
    ItemSeq (SubitemsWalk layout s.buf.data) s.buf.data buf.data.length s.buf.data.length := by
  have hw := walks_of_reaches layout a hbuf hrun hsmall
  obtain ⟨buf', stack⟩ := s
  obtain rfl : stack = [] := hclosed
  exact hw

set_option maxRecDepth 2000 in
/-- A way with a name, a tag list holding `highway=primary` and two node references, built by
admitted calls on an empty buffer: the walk steps over the way to the end of its 112 bytes, and
within the way over the tag list and the way node list. -/
theorem itemSeq_of_reaches_way :
    ∃ s, Relation.ReflTransGen (AdmittedStep Layout.amd64 Allocator.sample) ⟨⟨[], 64, 0⟩, []⟩ s ∧ s.stack = [] ∧
      s.buf.data.length = 112 ∧ ItemSeq (SubitemsWalk Layout.amd64 s.buf.data) s.buf.data 0 s.buf.data.length := by
  have hobject : ∀ ob : OSMObjectBuilder, ∀ b ∈ [OpenBuilder.object ob].head?, b.isObject := fun _ _ hb => by
    cases Option.mem_def.1 hb; rfl
  have hrun : Relation.ReflTransGen (AdmittedStep Layout.amd64 Allocator.sample) ⟨⟨[], 64, 0⟩, []⟩ _ :=
    ((((((Relation.ReflTransGen.single ⟨.newObject .way, rfl, fun _ => rfl, fun h => (nomatch h), rfl⟩).tail
      ⟨.setUser mapperName mapperName.length, rfl, fun h => (nomatch h), fun h => (nomatch h), rfl⟩).tail
      ⟨.newTagList, rfl, fun h => (nomatch h), fun _ => hobject _, rfl⟩).tail
      ⟨.addTag highwayPrimary, rfl, fun h => (nomatch h), fun h => (nomatch h), rfl⟩).tail
      ⟨.close, rfl, fun h => (nomatch h), fun h => (nomatch h), rfl⟩).tail
      ⟨.addNodeRefs [⟨1, 0, 0⟩, ⟨2, 0, 0⟩], rfl, fun h => (nomatch h), fun h => (nomatch h), rfl⟩).tail
      ⟨.close, rfl, fun h => (nomatch h), fun h => (nomatch h), rfl⟩
  exact ⟨_, hrun, rfl, rfl, itemSeq_of_reaches _ _ (by decide) hrun rfl (by decide)⟩

end Session

end Osmium
