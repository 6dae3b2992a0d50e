import Osmium.Io.BlockIndexTable
import Mathlib.Logic.Relation

/-!
# Random access to blocks: `get_parsed_block`

`get_parsed_block(i, read_metadata)` seeks the table's one descriptor to the body of block `i`,
reads its `datasize` bytes and hands them to `PBFDataBlobDecoder`, asking for every entity kind.
The first time a block is decoded, the id and type of its first OSM object are kept in the entry.

The decoder is external; it is a parameter `pbfDataBlobDecoder`, which returns the top-level items
of the decoded buffer or throws. A table is a state, and a call is a step from one table to the
next whether the call returns or throws, so that the results below hold over every sequence of
calls, with any indices and flags, in any order.

* `getParsedBlock_eq_decode_body`: on a constructed table, after any earlier calls, a call on
  block `i` hands the decoder exactly the body of the `i`-th data tuple of the file.
* `getParsedBlock_run_invariant`: offsets and datasizes never change; the first-item fields of an
  entry change only in a call on that entry that returns, while they are unset, and become those of
  the decoded buffer's first OSM object; once set they never change.
-/

namespace Osmium.Io

/-- `osmium::io::read_meta`: whether the decoder materialises the objects' metadata. -/
inductive ReadMeta
  | no
  | yes
  deriving DecidableEq, Repr

/-- `osmium::osm_entity_bits::all`: the entity-kind mask that asks for every kind. -/
def osmEntityBitsAll : ℕ := 0x1f

/-- A top-level item of a decoded buffer as `buffer.begin<osmium::OSMObject>()` sees it. -/
structure BufferItem where
  /-- The item's type. -/
  type : ItemType
  /-- The object id, for an OSM object. -/
  id : ℤ
  deriving DecidableEq, Repr

/-- `*buffer.begin<osmium::OSMObject>()`: the first item that is a node, way, relation or area. -/
def firstOSMObject (buffer : List BufferItem) : Option BufferItem :=
  buffer.find? (·.type.isOSMObject)

/-- The first OSM object of a buffer is never of type `undefined`. -/
theorem firstOSMObject_type_ne {buffer : List BufferItem} {it : BufferItem}
    (h : firstOSMObject buffer = some it) : it.type ≠ .undefined := by
  unfold firstOSMObject at h
  have hobj := List.find?_some h
  exact ItemType.ne_undefined_of_isOSMObject hobj

/-- The update `get_parsed_block` makes to the entry of a block it decoded into `buffer`: while
the first-item type is `undefined`, take id and type from the buffer's first OSM object. -/
def PbfBlockStart.recordFirstItem (b : PbfBlockStart) (buffer : List BufferItem) : PbfBlockStart :=
  if b.firstItemTypeOrZero = .undefined then
    match firstOSMObject buffer with
    | some it => { b with firstItemIdOrZero := it.id, firstItemTypeOrZero := it.type }
    | none => b
  else b

@[simp]
theorem PbfBlockStart.recordFirstItem_fileOffset (b : PbfBlockStart) (buffer : List BufferItem) :
    (b.recordFirstItem buffer).fileOffset = b.fileOffset := by
  unfold recordFirstItem
  split_ifs <;> [split; skip] <;> rfl

@[simp]
theorem PbfBlockStart.recordFirstItem_datasize (b : PbfBlockStart) (buffer : List BufferItem) :
    (b.recordFirstItem buffer).datasize = b.datasize := by
  unfold recordFirstItem
  split_ifs <;> [split; skip] <;> rfl

/-- A block start whose first-item type is set keeps its fields. -/
theorem PbfBlockStart.recordFirstItem_of_ne {b : PbfBlockStart}
    (h : b.firstItemTypeOrZero ≠ .undefined) (buffer : List BufferItem) :
    b.recordFirstItem buffer = b := by
  simp [recordFirstItem, h]

section Access

variable (split : ℕ → ℕ → ℕ)
  (pbfDataBlobDecoder : List UInt8 → ℕ → ReadMeta → Except String (List BufferItem))

/-- `get_parsed_block(block_index, read_metadata)` for a valid `block_index`: the decoded buffer
or the exception, and the table afterwards, whose descriptor has moved and whose entry may have
recorded its first item. -/
def getParsedBlock (t : PbfBlockIndexTable) (blockIndex : ℕ)
    (h : blockIndex < t.blockStarts.length) (readMetadata : ReadMeta) :
    Except String (List BufferItem) × PbfBlockIndexTable :=
  let blockStart := t.blockStarts[blockIndex]
  match readExactly split (fileSeek t.fd blockStart.fileOffset) blockStart.datasize with
  | (false, _, fd) => (.error "unexpected EOF", { t with fd })
  | (true, input, fd) =>
    match pbfDataBlobDecoder input osmEntityBitsAll readMetadata with
    | .error e => (.error e, { t with fd })
    | .ok buffer =>
      (.ok buffer, ⟨t.blockStarts.set blockIndex (blockStart.recordFirstItem buffer), fd⟩)

/-- What a call returns: the decode, with every entity kind, of the `datasize` bytes at the
entry's offset when the file holds them, and "unexpected EOF" otherwise. -/
theorem getParsedBlock_fst (t : PbfBlockIndexTable) (i : ℕ) (h : i < t.blockStarts.length)
    (m : ReadMeta) :
    (getParsedBlock split pbfDataBlobDecoder t i h m).1 =
      if t.blockStarts[i].datasize ≤ t.fd.content.length - t.blockStarts[i].fileOffset then
        pbfDataBlobDecoder ((t.fd.content.drop t.blockStarts[i].fileOffset).take
          t.blockStarts[i].datasize) osmEntityBitsAll m
      else .error "unexpected EOF" := by
  simp only [getParsedBlock, readExactly_eq, fileSeek_content, fileSeek_position]
  split_ifs
  · dsimp only
    split <;> simp_all
  · rfl

/-- The index after a call: unchanged unless the call returned a buffer, in which case entry `i`
has recorded that buffer's first item. -/
theorem getParsedBlock_snd_blockStarts (t : PbfBlockIndexTable) (i : ℕ)
    (h : i < t.blockStarts.length) (m : ReadMeta) :
    (getParsedBlock split pbfDataBlobDecoder t i h m).2.blockStarts =
      match (getParsedBlock split pbfDataBlobDecoder t i h m).1 with
      | .ok buffer => t.blockStarts.set i (t.blockStarts[i].recordFirstItem buffer)
      | .error _ => t.blockStarts := by
  unfold getParsedBlock
  dsimp only
  generalize readExactly split _ _ = r
  obtain ⟨_ | _, input, fd⟩ := r
  · rfl
  · dsimp only
    generalize pbfDataBlobDecoder input osmEntityBitsAll m = d
    cases d <;> rfl

/-- A call reads the file but never changes it. -/
@[simp]
theorem getParsedBlock_snd_content (t : PbfBlockIndexTable) (i : ℕ)
    (h : i < t.blockStarts.length) (m : ReadMeta) :
    (getParsedBlock split pbfDataBlobDecoder t i h m).2.fd.content = t.fd.content := by
  simp only [getParsedBlock, readExactly_eq, fileSeek_content]
  split_ifs
  · dsimp only
    split <;> rfl
  · rfl

/-- A call neither adds nor removes entries. -/
@[simp]
theorem length_getParsedBlock (t : PbfBlockIndexTable) (i : ℕ) (h : i < t.blockStarts.length)
    (m : ReadMeta) :
    (getParsedBlock split pbfDataBlobDecoder t i h m).2.blockStarts.length =
      t.blockStarts.length := by
  rw [getParsedBlock_snd_blockStarts]
  split <;> simp

/-- An entry of the index after a call: the entry before, or, for the block of a call that
returned a buffer while the entry's first-item type was unset, the entry with the id and type of
that buffer's first OSM object. -/
theorem getElem?_getParsedBlock (t : PbfBlockIndexTable) (i : ℕ) (h : i < t.blockStarts.length)
    (m : ReadMeta) {j : ℕ} {e : PbfBlockStart} (he : t.blockStarts[j]? = some e) :
    (getParsedBlock split pbfDataBlobDecoder t i h m).2.blockStarts[j]? = some e ∨
      j = i ∧ e.firstItemTypeOrZero = .undefined ∧
        ∃ buffer it, (getParsedBlock split pbfDataBlobDecoder t i h m).1 = .ok buffer ∧
          firstOSMObject buffer = some it ∧
          (getParsedBlock split pbfDataBlobDecoder t i h m).2.blockStarts[j]? =
            some { e with firstItemIdOrZero := it.id, firstItemTypeOrZero := it.type } := by
  rw [getParsedBlock_snd_blockStarts]
  generalize (getParsedBlock split pbfDataBlobDecoder t i h m).1 = r
  cases r with
  | error _ => exact .inl he
  | ok buffer =>
    dsimp only
    by_cases hji : j = i
    · subst hji
      have hei : t.blockStarts[j] = e := by simpa [h] using he
      rw [List.getElem?_set_self h, hei]
      unfold PbfBlockStart.recordFirstItem
      by_cases hundef : e.firstItemTypeOrZero = .undefined
      · rw [if_pos hundef]
        cases hfirst : firstOSMObject buffer with
        | none => exact .inl rfl
        | some it => exact .inr ⟨rfl, hundef, buffer, it, rfl, hfirst, rfl⟩
      · rw [if_neg hundef]
        exact .inl rfl
    · rw [List.getElem?_set_ne (Ne.symm hji)]
      exact .inl he

/-- An entry whose first-item type is set is never changed by a call. -/
theorem getElem?_getParsedBlock_of_ne (t : PbfBlockIndexTable) (i : ℕ)
    (h : i < t.blockStarts.length) (m : ReadMeta) {j : ℕ} {e : PbfBlockStart}
    (he : t.blockStarts[j]? = some e) (hset : e.firstItemTypeOrZero ≠ .undefined) :
    (getParsedBlock split pbfDataBlobDecoder t i h m).2.blockStarts[j]? = some e := by
  rcases getElem?_getParsedBlock split pbfDataBlobDecoder t i h m he with h' | ⟨-, hundef, -⟩
  · exact h'
  · exact absurd hundef hset

/-- One call `get_parsed_block(i, m)` with a valid index, whether it returns or throws. -/
inductive GetParsedBlockStep : PbfBlockIndexTable → PbfBlockIndexTable → Prop
  | call (t : PbfBlockIndexTable) (i : ℕ) (h : i < t.blockStarts.length) (m : ReadMeta) :
      GetParsedBlockStep t (getParsedBlock split pbfDataBlobDecoder t i h m).2

/-- The part of an index that calls never write: each entry's offset and datasize. -/
def PbfBlockIndexTable.layout (t : PbfBlockIndexTable) : List (ℕ × ℕ) :=
  t.blockStarts.map fun e => (e.fileOffset, e.datasize)

/-- An index whose entries with an unset first-item type also have a zero id: the two fields
are `(0, undefined)` together or set together. -/
def PbfBlockIndexTable.FirstItemsUnsetTogether (t : PbfBlockIndexTable) : Prop :=
  ∀ e ∈ t.blockStarts, e.firstItemTypeOrZero = .undefined → e.firstItemIdOrZero = 0

/-- A call keeps the file, every offset and datasize, and the pairing of unset first-item
fields. -/
theorem GetParsedBlockStep.preserves {t t' : PbfBlockIndexTable}
    (hstep : GetParsedBlockStep split pbfDataBlobDecoder t t') :
    t'.fd.content = t.fd.content ∧ t'.layout = t.layout ∧
      (t.FirstItemsUnsetTogether → t'.FirstItemsUnsetTogether) := by
  cases hstep with
  | call i h m =>
  refine ⟨getParsedBlock_snd_content split pbfDataBlobDecoder t i h m, ?_, ?_⟩
  · apply List.ext_getElem?
    intro j
    simp only [PbfBlockIndexTable.layout, List.getElem?_map]
    cases he : t.blockStarts[j]? with
    | none =>
      rw [List.getElem?_eq_none_iff] at he
      rw [List.getElem?_eq_none_iff.2 (by simpa using he)]
    | some e =>
      rcases getElem?_getParsedBlock split pbfDataBlobDecoder t i h m he with
        h' | ⟨_, _, _, _, _, _, h'⟩ <;> simp [h']
  · intro hinv e' he' hundef
    obtain ⟨j, hj'⟩ := List.mem_iff_getElem?.1 he'
    obtain ⟨hj, -⟩ := List.getElem?_eq_some_iff.1 hj'
    have he := List.getElem?_eq_getElem (by simpa using hj)
    rcases getElem?_getParsedBlock split pbfDataBlobDecoder t i h m he with
      h' | ⟨_, _, _, it, _, hfirst, h'⟩ <;> rw [h', Option.some.injEq] at hj' <;> subst hj'
    · exact hinv _ (List.getElem?_mem he) hundef
    · exact absurd hundef (firstOSMObject_type_ne hfirst)

/-- Along any sequence of calls the file, the layout and the pairing of unset first-item fields
are kept. -/
theorem preserves_of_reflTransGen {t t' : PbfBlockIndexTable}
    (hrun : Relation.ReflTransGen (GetParsedBlockStep split pbfDataBlobDecoder) t t') :
    t'.fd.content = t.fd.content ∧ t'.layout = t.layout ∧
      (t.FirstItemsUnsetTogether → t'.FirstItemsUnsetTogether) := by
  induction hrun with
  | refl => exact ⟨rfl, rfl, id⟩
  | tail _ hstep ih =>
    obtain ⟨h₁, h₂, h₃⟩ := hstep.preserves split pbfDataBlobDecoder
    exact ⟨h₁.trans ih.1, h₂.trans ih.2.1, h₃ ∘ ih.2.2⟩

/-- Along any sequence of calls, an entry whose first-item type is set stays as it is. -/
theorem getElem?_of_reflTransGen {t t' : PbfBlockIndexTable}
    (hrun : Relation.ReflTransGen (GetParsedBlockStep split pbfDataBlobDecoder) t t')
    {j : ℕ} {e : PbfBlockStart} (he : t.blockStarts[j]? = some e)
    (hset : e.firstItemTypeOrZero ≠ .undefined) : t'.blockStarts[j]? = some e := by
  induction hrun with
  | refl => exact he
  | tail _ hstep ih =>
    cases hstep with
    | call i h m => exact getElem?_getParsedBlock_of_ne split pbfDataBlobDecoder _ i h m ih hset

end Access

section Runs

variable (split : ℕ → ℕ → ℕ) (signedChar : Bool) (pbfFields : List UInt8 → Option (List PbfField))
  (pbfDataBlobDecoder : List UInt8 → ℕ → ReadMeta → Except String (List BufferItem))

/-- On a constructed table, after any sequence of earlier calls, `get_parsed_block(i, m)` hands
the decoder exactly the bytes `F[file_offset, file_offset + datasize)`, which are the body of the
`i`-th data tuple of the file, and returns the decoder's result: the read never fails, wherever
the earlier calls left the file position. -/
theorem getParsedBlock_eq_decode_body {F : List UInt8} {t₀ t : PbfBlockIndexTable}
    (hcons : PbfBlockIndexTable.construct split signedChar pbfFields F = .ok t₀)
    (hrun : Relation.ReflTransGen (GetParsedBlockStep split pbfDataBlobDecoder) t₀ t)
    (i : ℕ) (hi : i < t.blockStarts.length) (m : ReadMeta) :
    ∃ T₀ Ts, T₀.Valid pbfFields (expectedType false) ∧
      (∀ T ∈ Ts, T.Valid pbfFields (expectedType true)) ∧
      F = (T₀ :: Ts).flatMap BlobTuple.bytes ∧
      ∃ T, Ts[i]? = some T ∧
        (F.drop t.blockStarts[i].fileOffset).take t.blockStarts[i].datasize = T.body ∧
        (getParsedBlock split pbfDataBlobDecoder t i hi m).1 =
          pbfDataBlobDecoder T.body osmEntityBitsAll m := by
  obtain ⟨T₀, Ts, hT₀, hTs, hF, rfl⟩ :=
    exists_tuples_of_construct_eq_ok split signedChar pbfFields hcons
  obtain ⟨hcontent, hlayout, -⟩ := preserves_of_reflTransGen split pbfDataBlobDecoder hrun
  have hlay := congrArg (·[i]?) hlayout
  simp only [PbfBlockIndexTable.layout, List.getElem?_map, List.getElem?_eq_getElem hi] at hlay
  cases he₀ : (dataBlockStarts T₀.bytes.length Ts)[i]? with
  | none => simp [he₀] at hlay
  | some e₀ =>
    simp only [he₀, Option.map_some', Option.some.injEq, Prod.mk.injEq] at hlay
    have hdrop : F.drop T₀.bytes.length = Ts.flatMap BlobTuple.bytes := by
      rw [hF, List.flatMap_cons, List.drop_left]
    obtain ⟨T, hT, hds, hbody, -, -⟩ := getElem?_dataBlockStarts
      (fun T h => (hTs T h).lengthPrefix_length) hdrop he₀
    have hlen := congrArg List.length hbody
    simp only [List.length_take, List.length_drop] at hlen
    refine ⟨T₀, Ts, hT₀, hTs, hF, T, hT, by rw [hlay.1, hlay.2]; exact hbody, ?_⟩
    rw [getParsedBlock_fst, hcontent, hlay.1, hlay.2, if_pos (by simp only; omega)]
    simp only [hbody]

/-- Over every sequence of calls on a constructed table: each entry keeps the offset and datasize
it had after construction; a call changes an entry only if it is a call on that entry that
returns while the entry's first-item fields are still `(0, undefined)`, and then sets them to the
id and type of the first OSM object of the returned buffer, or leaves them unset if it has none;
and once set, the fields never change again. -/
theorem getParsedBlock_run_invariant {F : List UInt8} {t₀ t : PbfBlockIndexTable}
    (hcons : PbfBlockIndexTable.construct split signedChar pbfFields F = .ok t₀)
    (hrun : Relation.ReflTransGen (GetParsedBlockStep split pbfDataBlobDecoder) t₀ t) :
    t.layout = t₀.layout ∧
    (∀ i (hi : i < t.blockStarts.length) (m : ReadMeta) (j : ℕ) (e : PbfBlockStart),
      t.blockStarts[j]? = some e →
      (getParsedBlock split pbfDataBlobDecoder t i hi m).2.blockStarts[j]? = some e ∨
      j = i ∧ e.firstItemIdOrZero = 0 ∧ e.firstItemTypeOrZero = .undefined ∧
        ∃ buffer it, (getParsedBlock split pbfDataBlobDecoder t i hi m).1 = .ok buffer ∧
          firstOSMObject buffer = some it ∧
          (getParsedBlock split pbfDataBlobDecoder t i hi m).2.blockStarts[j]? =
            some { e with firstItemIdOrZero := it.id, firstItemTypeOrZero := it.type }) ∧
    (∀ i (hi : i < t.blockStarts.length) (m : ReadMeta) (buffer : List BufferItem)
      (e : PbfBlockStart),
      (getParsedBlock split pbfDataBlobDecoder t i hi m).1 = .ok buffer →
      t.blockStarts[i]? = some e → e.firstItemTypeOrZero = .undefined →
      (getParsedBlock split pbfDataBlobDecoder t i hi m).2.blockStarts[i]? =
        some (match firstOSMObject buffer with
          | some it => { e with firstItemIdOrZero := it.id, firstItemTypeOrZero := it.type }
          | none => e)) ∧
    (∀ t', Relation.ReflTransGen (GetParsedBlockStep split pbfDataBlobDecoder) t t' →
      ∀ (j : ℕ) (e : PbfBlockStart), t.blockStarts[j]? = some e →
        (e.firstItemIdOrZero, e.firstItemTypeOrZero) ≠ (0, .undefined) →
        t'.blockStarts[j]? = some e) := by
  obtain ⟨T₀, Ts, -, -, -, rfl⟩ := exists_tuples_of_construct_eq_ok split signedChar pbfFields hcons
  obtain ⟨-, hlayout, hpair⟩ := preserves_of_reflTransGen split pbfDataBlobDecoder hrun
  -- The fields are unset together in the constructed table, hence in every table after it.
  have hunset : t.FirstItemsUnsetTogether :=
    hpair fun e he _ => (firstItem_of_mem_dataBlockStarts he).1
  refine ⟨hlayout, ?_, ?_, ?_⟩
  · intro i hi m j e he
    rcases getElem?_getParsedBlock split pbfDataBlobDecoder t i hi m he with h | ⟨hji, hundef, h⟩
    · exact .inl h
    · exact .inr ⟨hji, hunset e (List.getElem?_mem he) hundef, hundef, h⟩
  · intro i hi m buffer e hok he hundef
    have hei : t.blockStarts[i] = e := by simpa [hi] using he
    rw [getParsedBlock_snd_blockStarts, hok]
    simp only [List.getElem?_set_self hi, hei, PbfBlockStart.recordFirstItem, if_pos hundef]
  · intro t' hrun' j e he hset
    refine getElem?_of_reflTransGen split pbfDataBlobDecoder hrun' he fun hundef => hset ?_
    rw [hunset e (List.getElem?_mem he) hundef, hundef]

end Runs

/-- A two-block file: an `OSMHeader` tuple and one `OSMData` tuple, each with a one-byte body. -/
def samplePbfFile : List UInt8 :=
  [0x00, 0x00, 0x00, 0x0D, 0x0A, 0x09, 0x4F, 0x53, 0x4D, 0x48, 0x65, 0x61, 0x64, 0x65, 0x72, 0x18,
    0x01, 0xAB, 0x00, 0x00, 0x00, 0x0B, 0x0A, 0x07, 0x4F, 0x53, 0x4D, 0x44, 0x61, 0x74, 0x61, 0x18,
    0x01, 0xCD]

/-- The table of the sample file: one entry, for the data block's body at offset 33. -/
def sampleTable : PbfBlockIndexTable :=
  ⟨[⟨33, 0, 1, .undefined⟩], ⟨samplePbfFile, 34⟩⟩

/-- The sample file indexes to `sampleTable`, however the reads are split. -/
theorem construct_samplePbfFile (split : ℕ → ℕ → ℕ) (signedChar : Bool) :
    PbfBlockIndexTable.construct split signedChar protobufFields samplePbfFile = .ok sampleTable :=
  @construct_eq_ok_of_tuples split signedChar protobufFields samplePbfFile
    ⟨[0, 0, 0, 13], (samplePbfFile.take 17).drop 4, [0xAB]⟩
    [⟨[0, 0, 0, 11], (samplePbfFile.take 33).drop 22, [0xCD]⟩]
    ⟨rfl, by decide, rfl, rfl, le_rfl, by decide⟩
    (by simp only [List.mem_singleton, forall_eq]; exact ⟨rfl, by decide, rfl, rfl, le_rfl, by decide⟩)
    rfl

/-- A stand-in for `PBFDataBlobDecoder` that decodes any body to one node, whose id is the body's
length. -/
def sampleDataBlobDecoder (input : List UInt8) (_ : ℕ) (_ : ReadMeta) :
    Except String (List BufferItem) :=
  .ok [⟨.node, input.length⟩]

/-- The sample table after a call on its data block: the entry has recorded the decoded node. -/
def sampleTableRead : PbfBlockIndexTable :=
  ⟨[⟨33, 1, 1, .node⟩], ⟨samplePbfFile, 34⟩⟩

/-- A call on the sample table's data block, without metadata, leads to `sampleTableRead`. -/
theorem getParsedBlockStep_sampleTable :
    GetParsedBlockStep (fun _ _ => 1) sampleDataBlobDecoder sampleTable sampleTableRead := by
  have hread : (getParsedBlock (fun _ _ => 1) sampleDataBlobDecoder sampleTable 0 (by decide) .no).2 =
      sampleTableRead := by
    simp only [getParsedBlock, readExactly_eq, fileSeek_content, fileSeek_position]
    decide
  exact hread ▸ .call sampleTable 0 _ .no

/-- `getParsedBlock_eq_decode_body` on the sample file, read one byte at a time, for its data
block, after an earlier call on it. -/
theorem getParsedBlock_eq_decode_body_sample :
    PbfBlockIndexTable.construct (fun _ _ => 1) true protobufFields samplePbfFile =
        .ok sampleTable ∧
      Relation.ReflTransGen (GetParsedBlockStep (fun _ _ => 1) sampleDataBlobDecoder)
        sampleTable sampleTableRead ∧
      (∃ T₀ Ts, T₀.Valid protobufFields (expectedType false) ∧
        (∀ T ∈ Ts, T.Valid protobufFields (expectedType true)) ∧
        samplePbfFile = (T₀ :: Ts).flatMap BlobTuple.bytes ∧
        ∃ T, Ts[0]? = some T ∧ (samplePbfFile.drop 33).take 1 = T.body ∧
          (getParsedBlock (fun _ _ => 1) sampleDataBlobDecoder sampleTableRead 0 (by decide)
            .yes).1 = sampleDataBlobDecoder T.body osmEntityBitsAll .yes) :=
  ⟨construct_samplePbfFile _ _, .single getParsedBlockStep_sampleTable,
    getParsedBlock_eq_decode_body (fun _ _ => 1) true protobufFields sampleDataBlobDecoder
      (construct_samplePbfFile _ _) (.single getParsedBlockStep_sampleTable) 0 (by decide) .yes⟩

/-- `getParsedBlock_run_invariant` on the sample file, read one byte at a time, after a call on
its data block has recorded the block's first item. -/
theorem getParsedBlock_run_invariant_sample :
    PbfBlockIndexTable.construct (fun _ _ => 1) true protobufFields samplePbfFile =
        .ok sampleTable ∧
      Relation.ReflTransGen (GetParsedBlockStep (fun _ _ => 1) sampleDataBlobDecoder)
        sampleTable sampleTableRead ∧
      (sampleTableRead.layout = sampleTable.layout ∧
      (∀ i (hi : i < sampleTableRead.blockStarts.length) (m : ReadMeta) (j : ℕ) (e : PbfBlockStart),
        sampleTableRead.blockStarts[j]? = some e →
        (getParsedBlock (fun _ _ => 1) sampleDataBlobDecoder sampleTableRead i hi m).2.blockStarts[j]? =
            some e ∨
        j = i ∧ e.firstItemIdOrZero = 0 ∧ e.firstItemTypeOrZero = .undefined ∧
          ∃ buffer it,
            (getParsedBlock (fun _ _ => 1) sampleDataBlobDecoder sampleTableRead i hi m).1 =
              .ok buffer ∧ firstOSMObject buffer = some it ∧
            (getParsedBlock (fun _ _ => 1) sampleDataBlobDecoder sampleTableRead i hi m).2.blockStarts[j]?
              = some { e with firstItemIdOrZero := it.id, firstItemTypeOrZero := it.type }) ∧
      (∀ i (hi : i < sampleTableRead.blockStarts.length) (m : ReadMeta) (buffer : List BufferItem)
        (e : PbfBlockStart),
        (getParsedBlock (fun _ _ => 1) sampleDataBlobDecoder sampleTableRead i hi m).1 = .ok buffer →
        sampleTableRead.blockStarts[i]? = some e → e.firstItemTypeOrZero = .undefined →
        (getParsedBlock (fun _ _ => 1) sampleDataBlobDecoder sampleTableRead i hi m).2.blockStarts[i]? =
          some (match firstOSMObject buffer with
            | some it => { e with firstItemIdOrZero := it.id, firstItemTypeOrZero := it.type }
            | none => e)) ∧
      (∀ t', Relation.ReflTransGen (GetParsedBlockStep (fun _ _ => 1) sampleDataBlobDecoder)
          sampleTableRead t' →
        ∀ (j : ℕ) (e : PbfBlockStart), sampleTableRead.blockStarts[j]? = some e →
          (e.firstItemIdOrZero, e.firstItemTypeOrZero) ≠ (0, .undefined) →
          t'.blockStarts[j]? = some e)) :=
  ⟨construct_samplePbfFile _ _, .single getParsedBlockStep_sampleTable,
    getParsedBlock_run_invariant (fun _ _ => 1) true protobufFields sampleDataBlobDecoder
      (construct_samplePbfFile _ _) (.single getParsedBlockStep_sampleTable)⟩

end Osmium.Io
