import Osmium.Io.BlobHeader

/-!
# The PBF block index table

`PbfBlockIndexTable` scans a PBF file, a sequence of `[4-byte length][BlobHeader][Blob]` tuples,
reading every length and BlobHeader but skipping every Blob by a seek, and keeps one
`pbf_block_start` for every data block.

The file is a byte string `F` that does not change while it is read. The constructor is a total
function here: the scan loop recurses on the distance to the end of the file, which every block
shortens, so the constructor terminates on every file.

* `digestAndSkipBlock_eq_ok_iff`: what one `digest_and_skip_block` reads, checks and appends.
* `construct_eq_ok_iff`: the constructor returns normally exactly on the files that split into a
  header tuple and data tuples, each well formed, with no byte left over, and the index it builds
  then holds one entry per data tuple: the offset of its body, its datasize, and the "never read"
  first-item fields.
-/

namespace Osmium.Io

/-- `pbf_block_start`: the index entry of one data block. -/
structure PbfBlockStart where
  /-- The file offset of the block's body. -/
  fileOffset : ℕ
  /-- The id of the block's first object, zero until the block has been read. -/
  firstItemIdOrZero : ℤ
  /-- The size of the block's body. -/
  datasize : ℕ
  /-- The type of the block's first object, `undefined` until the block has been read. -/
  firstItemTypeOrZero : ItemType
  deriving DecidableEq, Repr

/-- `PbfBlockIndexTable`: the index and the descriptor of the file it indexes. -/
structure PbfBlockIndexTable where
  /-- `m_block_starts`, in file order. -/
  blockStarts : List PbfBlockStart
  /-- `m_fd`, whose file position every read and seek moves. -/
  fd : FileDescriptor
  deriving DecidableEq, Repr

section Scan

variable (split : ℕ → ℕ → ℕ) (signedChar : Bool) (pbfFields : List UInt8 → Option (List PbfField))

/-- `digest_and_skip_block(current_offset, file_size, should_index_block)`: read the length and
the BlobHeader, check them, record the block if it is a data block, and seek past its body. The
`file_size` argument is not used by the code and is left out. -/
def digestAndSkipBlock (t : PbfBlockIndexTable) (currentOffset : ℕ) (shouldIndexBlock : Bool) :
    Except String (ℕ × PbfBlockIndexTable) := do
  let (blobHeaderSize, fd) ← readBlobHeaderSizeFromFile split signedChar t.fd
  match readExactly split fd blobHeaderSize with
  | (false, _, _) => throw "unexpected EOF in blob header"
  | (true, buffer, fd) =>
    let blobBodySize ← decodeBlobHeader pbfFields buffer (expectedType shouldIndexBlock)
    if blobBodySize > maxBlockSize then throw "invalid Block size (> max_block_size)"
    let bodyOffset := currentOffset + 4 + blobHeaderSize
    let blockStarts :=
      if shouldIndexBlock then
        t.blockStarts ++ [⟨bodyOffset, 0, blobBodySize % 2 ^ 32, .undefined⟩]
      else t.blockStarts
    return (bodyOffset + blobBodySize, ⟨blockStarts, fileSeek fd (bodyOffset + blobBodySize)⟩)

/-- One `digest_and_skip_block`, read off the file content: the four bytes at the file position
hold a length of at most 64, that many header bytes follow and decode to a datasize of at most
20 MiB, and the block is recorded at `currentOffset + 4 + length` before the position moves past
its body. -/
theorem digestAndSkipBlock_eq_ok_iff {t t' : PbfBlockIndexTable} {o o' : ℕ} {b : Bool} :
    digestAndSkipBlock split signedChar pbfFields t o b = .ok (o', t') ↔
      ∃ d, 4 ≤ t.fd.content.length - t.fd.position ∧
        headerSizeAt t.fd.content t.fd.position ≤ 64 ∧
        headerSizeAt t.fd.content t.fd.position ≤ t.fd.content.length - (t.fd.position + 4) ∧
        decodeBlobHeader pbfFields (headerAt t.fd.content t.fd.position) (expectedType b) =
          .ok d ∧
        d ≤ maxBlockSize ∧ o' = o + 4 + headerSizeAt t.fd.content t.fd.position + d ∧
        t' = ⟨if b then t.blockStarts ++
              [⟨o + 4 + headerSizeAt t.fd.content t.fd.position, 0, d, .undefined⟩]
            else t.blockStarts, ⟨t.fd.content, o'⟩⟩ := by
  unfold digestAndSkipBlock
  cases hsize : readBlobHeaderSizeFromFile split signedChar t.fd with
  | error e =>
    simp only [bind, Except.bind, reduceCtorEq, false_iff, not_exists, not_and]
    intro d hfit hle
    have := (readBlobHeaderSizeFromFile_eq_ok_iff split signedChar t.fd _ _).2
      ⟨hfit, hle, rfl, rfl⟩
    rw [hsize] at this
    cases this
  | ok r =>
    obtain ⟨h, fd⟩ := r
    obtain ⟨hfit, hle, rfl, rfl⟩ :=
      (readBlobHeaderSizeFromFile_eq_ok_iff split signedChar _ _ _).1 hsize
    simp only [bind, Except.bind, readExactly_eq, headerAt]
    generalize headerSizeAt t.fd.content t.fd.position = H at hle ⊢
    by_cases hH : H ≤ t.fd.content.length - (t.fd.position + 4)
    · rw [if_pos hH]
      dsimp only
      cases hdec : decodeBlobHeader pbfFields
          ((t.fd.content.drop (t.fd.position + 4)).take H) (expectedType b) with
      | error e => simp
      | ok d =>
        by_cases hd : d > maxBlockSize
        · simp only [hd, if_true, reduceCtorEq, false_iff, not_exists, not_and]
          rintro d' - - - ⟨⟩ hd'
          omega
        · have hmod : d % 2 ^ 32 = d := Nat.mod_eq_of_lt (by unfold maxBlockSize at hd; omega)
          simp only [hd, if_false, pure, Except.pure, Except.ok.injEq, Prod.mk.injEq, hmod]
          constructor
          · rintro ⟨rfl, rfl⟩
            exact ⟨d, hfit, hle, hH, rfl, by omega, rfl, rfl⟩
          · rintro ⟨d', -, -, -, ⟨⟩, -, rfl, rfl⟩
            exact ⟨rfl, rfl⟩
    · rw [if_neg hH]
      simp only [reduceCtorEq, false_iff, not_exists, not_and]
      exact fun _ _ _ h => absurd h hH

/-- Every block moves the offset on, by at least its four-byte length. -/
theorem lt_of_digestAndSkipBlock_eq_ok {t t' : PbfBlockIndexTable} {o o' : ℕ} {b : Bool}
    (h : digestAndSkipBlock split signedChar pbfFields t o b = .ok (o', t')) : o < o' := by
  obtain ⟨d, -, -, -, -, -, rfl, -⟩ := (digestAndSkipBlock_eq_ok_iff split signedChar pbfFields).1 h
  omega

/-- The loop `while (offset < file_size) offset = digest_and_skip_block(offset, file_size, true);`
over the data blocks. -/
def scanDataBlocks (fileSize offset : ℕ) (t : PbfBlockIndexTable) :
    Except String (ℕ × PbfBlockIndexTable) :=
  if offset < fileSize then
    match h : digestAndSkipBlock split signedChar pbfFields t offset true with
    | .error e => .error e
    | .ok (offset', t') => scanDataBlocks fileSize offset' t'
  else .ok (offset, t)
termination_by fileSize - offset
decreasing_by
  have := lt_of_digestAndSkipBlock_eq_ok split signedChar pbfFields h
  omega

/-- `PbfBlockIndexTable(filename)` on a file with content `F`: digest the header block, then the
data blocks while the offset is before the end of the file, and refuse an offset past the end. -/
def PbfBlockIndexTable.construct (F : List UInt8) : Except String PbfBlockIndexTable := do
  let (offset, t) ← digestAndSkipBlock split signedChar pbfFields ⟨[], ⟨F, 0⟩⟩ 0 false
  let (offset, t) ← scanDataBlocks split signedChar pbfFields F.length offset t
  if offset > F.length then
    throw "file either grew, or otherwise did not have expected size (perhaps 32-bit truncation?)"
  return t

end Scan


/-- One `[4-byte length][BlobHeader][Blob]` tuple of a PBF file. -/
structure BlobTuple where
  /-- The four bytes of the BlobHeader's length, in network byte order. -/
  lengthPrefix : List UInt8
  /-- The BlobHeader message. -/
  header : List UInt8
  /-- The Blob, the block's body. -/
  body : List UInt8

/-- The bytes of a tuple as they stand in the file. -/
def BlobTuple.bytes (T : BlobTuple) : List UInt8 :=
  T.lengthPrefix ++ T.header ++ T.body

/-- A tuple the constructor accepts where it expects the type `expected`: a four-byte length of
at most 64, that many BlobHeader bytes, which `decode_blob_header` accepts with a datasize from
1 to 20 MiB, and that many body bytes. -/
structure BlobTuple.Valid (pbfFields : List UInt8 → Option (List PbfField)) (T : BlobTuple)
    (expected : List UInt8) : Prop where
  lengthPrefix_length : T.lengthPrefix.length = 4
  headerSize_le : bigEndianValue T.lengthPrefix ≤ maxSmallBlobHeaderSize
  header_length : T.header.length = bigEndianValue T.lengthPrefix
  decode_eq : decodeBlobHeader pbfFields T.header expected = .ok T.body.length
  one_le_datasize : 1 ≤ T.body.length
  datasize_le : T.body.length ≤ maxBlockSize

/-- The index entries of data tuples laid out from file offset `offset` on: each at the offset of
its body, with its datasize and the "never read" first-item fields. -/
def dataBlockStarts : ℕ → List BlobTuple → List PbfBlockStart
  | _, [] => []
  | offset, T :: Ts =>
    ⟨offset + 4 + T.header.length, 0, T.body.length, .undefined⟩ ::
      dataBlockStarts (offset + T.bytes.length) Ts

/-- A valid tuple is at least five bytes long: its length and one body byte. -/
theorem BlobTuple.Valid.five_le_length {pbfFields : List UInt8 → Option (List PbfField)}
    {T : BlobTuple} {expected : List UInt8} (hT : T.Valid pbfFields expected) :
    5 ≤ T.bytes.length := by
  simp only [BlobTuple.bytes, List.length_append, hT.lengthPrefix_length]
  have := hT.one_le_datasize
  omega

/-- Splitting the file at `o + n`: what lies after `o` is the next `n` bytes and what lies after
`o + n`. -/
theorem drop_eq_take_append_drop (F : List UInt8) (o n : ℕ) :
    F.drop o = (F.drop o).take n ++ F.drop (o + n) := by
  rw [← List.drop_drop, List.take_append_drop]

/-- What follows a prefix `a` of the file after `o` is the file after `o + a.length`. -/
theorem drop_add_length {F a r : List UInt8} {o : ℕ} (h : F.drop o = a ++ r) :
    F.drop (o + a.length) = r := by
  rw [← List.drop_drop, h, List.drop_left]

/-- A sequence of valid tuples is empty exactly when its bytes are. -/
theorem flatMap_bytes_eq_nil {pbfFields : List UInt8 → Option (List PbfField)}
    {Ts : List BlobTuple} (hTs : ∀ T ∈ Ts, T.Valid pbfFields (expectedType true)) :
    Ts.flatMap BlobTuple.bytes = [] ↔ Ts = [] := by
  cases Ts with
  | nil => simp
  | cons T Ts =>
    have := (hTs T (List.mem_cons_self _ _)).five_le_length
    simp only [List.flatMap_cons, List.append_eq_nil, reduceCtorEq, iff_false, not_and]
    intro h
    simp [h] at this

@[simp]
theorem length_dataBlockStarts (o : ℕ) (Ts : List BlobTuple) :
    (dataBlockStarts o Ts).length = Ts.length := by
  induction Ts generalizing o <;> simp [dataBlockStarts, *]

/-- Every entry the scan creates has its first-item fields unset. -/
theorem firstItem_of_mem_dataBlockStarts {o : ℕ} {Ts : List BlobTuple} {e : PbfBlockStart}
    (he : e ∈ dataBlockStarts o Ts) :
    e.firstItemIdOrZero = 0 ∧ e.firstItemTypeOrZero = .undefined := by
  induction Ts generalizing o with
  | nil => simp [dataBlockStarts] at he
  | cons T Ts ih =>
    rcases List.mem_cons.1 he with rfl | he
    · exact ⟨rfl, rfl⟩
    · exact ih he

/-- Laid out in a file whose content after `o` is exactly these tuples, each entry's datasize bytes
at its offset are its tuple's body, and its first-item fields are unset. -/
theorem getElem?_dataBlockStarts {F : List UInt8} {o : ℕ} {Ts : List BlobTuple}
    (hlp : ∀ T ∈ Ts, T.lengthPrefix.length = 4) (hF : F.drop o = Ts.flatMap BlobTuple.bytes)
    {i : ℕ} {e : PbfBlockStart} (he : (dataBlockStarts o Ts)[i]? = some e) :
    ∃ T, Ts[i]? = some T ∧ e.datasize = T.body.length ∧
      (F.drop e.fileOffset).take e.datasize = T.body ∧
      e.firstItemIdOrZero = 0 ∧ e.firstItemTypeOrZero = .undefined := by
  induction Ts generalizing o i with
  | nil => simp [dataBlockStarts] at he
  | cons T Ts ih =>
    rw [List.flatMap_cons] at hF
    cases i with
    | zero =>
      simp only [dataBlockStarts, List.getElem?_cons_zero, Option.some.injEq] at he
      subst he
      refine ⟨T, List.getElem?_cons_zero, rfl, ?_, rfl, rfl⟩
      rw [BlobTuple.bytes, List.append_assoc, List.append_assoc] at hF
      have hbody := drop_add_length (drop_add_length hF)
      rw [hlp T (List.mem_cons_self _ _)] at hbody
      rw [hbody, List.take_left]
    | succ i =>
      simp only [dataBlockStarts, List.getElem?_cons_succ] at he
      simpa only [List.getElem?_cons_succ] using
        ih (fun T' h => hlp T' (List.mem_cons_of_mem _ h)) (drop_add_length hF) he

section Tuples

variable (split : ℕ → ℕ → ℕ) (signedChar : Bool) (pbfFields : List UInt8 → Option (List PbfField))

/-- `digest_and_skip_block` on a valid tuple at the file position reads that tuple: it moves past
it and, for a data block, records it at the offset of its body. -/
theorem digestAndSkipBlock_of_valid {t : PbfBlockIndexTable} {o : ℕ} {b : Bool} {T : BlobTuple}
    {rest : List UInt8} (hfd : t.fd.position = o) (hT : T.Valid pbfFields (expectedType b))
    (hF : t.fd.content.drop o = T.bytes ++ rest) :
    digestAndSkipBlock split signedChar pbfFields t o b =
      .ok (o + T.bytes.length,
        ⟨if b then t.blockStarts ++ [⟨o + 4 + T.header.length, 0, T.body.length, .undefined⟩]
          else t.blockStarts, ⟨t.fd.content, o + T.bytes.length⟩⟩) := by
  have hlen := congrArg List.length hF
  simp only [List.length_drop, BlobTuple.bytes, List.length_append, hT.lengthPrefix_length] at hlen
  rw [BlobTuple.bytes, List.append_assoc, List.append_assoc] at hF
  have hsize : headerSizeAt t.fd.content o = T.header.length := by
    rw [headerSizeAt, hF, List.take_left' hT.lengthPrefix_length, hT.header_length]
  have hheader : headerAt t.fd.content o = T.header := by
    rw [headerAt, hsize, ← hT.lengthPrefix_length, drop_add_length hF, List.take_left]
  rw [digestAndSkipBlock_eq_ok_iff, hfd, hsize, hheader]
  refine ⟨T.body.length, by omega, ?_, by omega, hT.decode_eq, hT.datasize_le, ?_, ?_⟩
  · have := hT.headerSize_le
    rw [hT.header_length]
    exact this
  · simp only [BlobTuple.bytes, List.length_append, hT.lengthPrefix_length]
    omega
  · rfl

/-- A `digest_and_skip_block` that returns, followed by nothing past the end of the file, has read
a valid tuple at the file position and moved past it. -/
theorem exists_valid_of_digestAndSkipBlock {t t' : PbfBlockIndexTable} {o o' : ℕ} {b : Bool}
    (hfd : t.fd.position = o) (h : digestAndSkipBlock split signedChar pbfFields t o b = .ok (o', t'))
    (hle : o' ≤ t.fd.content.length) :
    ∃ T : BlobTuple, T.Valid pbfFields (expectedType b) ∧
      t.fd.content.drop o = T.bytes ++ t.fd.content.drop o' ∧
      t' = ⟨if b then t.blockStarts ++ [⟨o + 4 + T.header.length, 0, T.body.length, .undefined⟩]
          else t.blockStarts, ⟨t.fd.content, o'⟩⟩ := by
  obtain ⟨d, hfit, hsz, hH, hdec, hd, rfl, rfl⟩ :=
    (digestAndSkipBlock_eq_ok_iff split signedChar pbfFields).1 h
  subst hfd
  generalize t.fd.content = F at *
  generalize hHdef : headerSizeAt F t.fd.position = H at *
  let T : BlobTuple :=
    ⟨(F.drop t.fd.position).take 4, headerAt F t.fd.position,
      (F.drop (t.fd.position + 4 + H)).take d⟩
  have hbody : T.body.length = d := by
    simp only [T, List.length_take, List.length_drop]
    omega
  have hhead : T.header.length = H := by
    simp only [T, headerAt, hHdef, List.length_take, List.length_drop]
    omega
  refine ⟨T, ⟨?_, ?_, ?_, ?_, ?_, ?_⟩, ?_, ?_⟩
  · simp only [T, List.length_take, List.length_drop]
    omega
  · rw [← headerSizeAt, hHdef]
    exact hsz
  · rw [hhead, ← headerSizeAt, hHdef]
  · rw [hbody]
    exact hdec
  · rw [hbody]
    exact Nat.one_le_iff_ne_zero.2 (decodeBlobHeader_ne_zero pbfFields hdec)
  · rw [hbody]
    exact hd
  · -- The file after the position is the length, the header, the body and the rest.
    calc F.drop t.fd.position
        = (F.drop t.fd.position).take 4 ++ F.drop (t.fd.position + 4) :=
          drop_eq_take_append_drop F _ _
      _ = (F.drop t.fd.position).take 4 ++ ((F.drop (t.fd.position + 4)).take H ++
            ((F.drop (t.fd.position + 4 + H)).take d ++ F.drop (t.fd.position + 4 + H + d))) := by
          rw [← drop_eq_take_append_drop F (t.fd.position + 4 + H) d,
            ← drop_eq_take_append_drop F (t.fd.position + 4) H]
      _ = T.bytes ++ F.drop (t.fd.position + 4 + H + d) := by
          simp only [T, BlobTuple.bytes, headerAt, hHdef, List.append_assoc]
  · rw [hhead, hbody]

theorem scanDataBlocks_of_lt_of_error {fs o : ℕ} {t : PbfBlockIndexTable} {e : String}
    (hlt : o < fs) (h : digestAndSkipBlock split signedChar pbfFields t o true = .error e) :
    scanDataBlocks split signedChar pbfFields fs o t = .error e := by
  rw [scanDataBlocks, if_pos hlt]
  split <;> simp_all

theorem scanDataBlocks_of_lt_of_ok {fs o o₁ : ℕ} {t t₁ : PbfBlockIndexTable} (hlt : o < fs)
    (h : digestAndSkipBlock split signedChar pbfFields t o true = .ok (o₁, t₁)) :
    scanDataBlocks split signedChar pbfFields fs o t =
      scanDataBlocks split signedChar pbfFields fs o₁ t₁ := by
  rw [scanDataBlocks, if_pos hlt]
  split <;> simp_all

theorem scanDataBlocks_of_not_lt {fs o : ℕ} {t : PbfBlockIndexTable} (hge : ¬o < fs) :
    scanDataBlocks split signedChar pbfFields fs o t = .ok (o, t) := by
  rw [scanDataBlocks, if_neg hge]

/-- The scan loop never moves the offset back. -/
theorem le_of_scanDataBlocks_eq_ok {fs o o' : ℕ} {t t' : PbfBlockIndexTable}
    (h : scanDataBlocks split signedChar pbfFields fs o t = .ok (o', t')) : o ≤ o' := by
  induction o, t using scanDataBlocks.induct split signedChar pbfFields fs with
  | case1 o t hlt e he => simp [scanDataBlocks_of_lt_of_error split signedChar pbfFields hlt he] at h
  | case2 o t hlt o₁ t₁ he ih =>
    rw [scanDataBlocks_of_lt_of_ok split signedChar pbfFields hlt he] at h
    exact (lt_of_digestAndSkipBlock_eq_ok split signedChar pbfFields he).le.trans (ih h)
  | case3 o t hge =>
    rw [scanDataBlocks_of_not_lt split signedChar pbfFields hge] at h
    cases h
    rfl

/-- The scan over the data blocks, from a position `o` inside the file, ends exactly at the end
of the file when what follows `o` splits into valid data tuples with no byte left over; the
index then gains one entry per tuple. -/
theorem scanDataBlocks_eq_ok_iff {F : List UInt8} {o o' : ℕ} {t t' : PbfBlockIndexTable}
    (hfd : t.fd = ⟨F, o⟩) (ho : o ≤ F.length) :
    (scanDataBlocks split signedChar pbfFields F.length o t = .ok (o', t') ∧ o' ≤ F.length) ↔
      ∃ Ts : List BlobTuple, (∀ T ∈ Ts, T.Valid pbfFields (expectedType true)) ∧
        F.drop o = Ts.flatMap BlobTuple.bytes ∧ o' = F.length ∧
        t' = ⟨t.blockStarts ++ dataBlockStarts o Ts, ⟨F, F.length⟩⟩ := by
  induction o, t using scanDataBlocks.induct split signedChar pbfFields F.length with
  | case1 o t hlt e he =>
    rw [scanDataBlocks_of_lt_of_error split signedChar pbfFields hlt he]
    simp only [reduceCtorEq, false_and, false_iff, not_exists, not_and]
    intro Ts hTs hdrop
    cases Ts with
    | nil => simp at hdrop; omega
    | cons T Ts =>
      have := digestAndSkipBlock_of_valid split signedChar pbfFields (by rw [hfd])
        (hTs T (List.mem_cons_self _ _)) (by rw [hfd]; exact hdrop)
      rw [he] at this
      cases this
  | case2 o t hlt o₁ t₁ he ih =>
    rw [scanDataBlocks_of_lt_of_ok split signedChar pbfFields hlt he]
    have hfd₁ : t₁.fd = ⟨F, o₁⟩ := by
      obtain ⟨-, -, -, -, -, -, -, -, rfl⟩ :=
        (digestAndSkipBlock_eq_ok_iff split signedChar pbfFields).1 he
      rw [hfd]
    constructor
    · rintro ⟨hscan, hle⟩
      have ho₁ : o₁ ≤ F.length :=
        (le_of_scanDataBlocks_eq_ok split signedChar pbfFields hscan).trans hle
      obtain ⟨Ts, hTs, hdrop, rfl, rfl⟩ := (ih hfd₁ ho₁).1 ⟨hscan, hle⟩
      obtain ⟨T, hT, hF, rfl⟩ := exists_valid_of_digestAndSkipBlock split signedChar pbfFields
        (by rw [hfd]) he (by rw [hfd]; exact ho₁)
      rw [hfd] at hF
      have hlen := congrArg List.length hF
      simp only [List.length_drop, List.length_append] at hlen
      have ho₁eq : o₁ = o + T.bytes.length := by omega
      refine ⟨T :: Ts, ?_, by rw [hF, hdrop, List.flatMap_cons], rfl, ?_⟩
      · intro T' hT'
        rcases List.mem_cons.1 hT' with rfl | h
        exacts [hT, hTs T' h]
      · simp [dataBlockStarts, hfd, ho₁eq]
    · rintro ⟨Ts, hTs, hdrop, rfl, rfl⟩
      cases Ts with
      | nil => simp at hdrop; omega
      | cons T Ts =>
        rw [List.flatMap_cons] at hdrop
        have hd := digestAndSkipBlock_of_valid split signedChar pbfFields (by rw [hfd])
          (hTs T (List.mem_cons_self _ _)) (by rw [hfd]; exact hdrop)
        rw [he, Except.ok.injEq, Prod.mk.injEq] at hd
        obtain ⟨rfl, rfl⟩ := hd
        have hlen := congrArg List.length hdrop
        simp only [List.length_drop, List.length_append] at hlen
        refine (ih hfd₁ (by dsimp only; omega)).2 ⟨Ts, fun T' h => hTs T' (List.mem_cons_of_mem _ h),
          drop_add_length hdrop, rfl, ?_⟩
        simp [dataBlockStarts, hfd]
  | case3 o t hge =>
    rw [scanDataBlocks_of_not_lt split signedChar pbfFields hge]
    simp only [Except.ok.injEq, Prod.mk.injEq]
    constructor
    · rintro ⟨⟨rfl, rfl⟩, -⟩
      refine ⟨[], by simp, by simp; omega, by omega, ?_⟩
      obtain rfl : o = F.length := by omega
      rw [dataBlockStarts, List.append_nil, ← hfd]
    · rintro ⟨Ts, hTs, hdrop, rfl, rfl⟩
      have hnil : Ts = [] := (flatMap_bytes_eq_nil hTs).1 (by rw [← hdrop]; simp; omega)
      subst hnil
      obtain rfl : o = F.length := by omega
      refine ⟨⟨rfl, ?_⟩, le_rfl⟩
      rw [dataBlockStarts, List.append_nil, ← hfd]

/-- The constructor returns a table exactly when the header block digests, the scan over the data
blocks returns, and its final offset is not past the end of the file. -/
theorem construct_eq_ok_iff_scan (F : List UInt8) (t : PbfBlockIndexTable) :
    PbfBlockIndexTable.construct split signedChar pbfFields F = .ok t ↔
      ∃ o₁ t₁ o', digestAndSkipBlock split signedChar pbfFields ⟨[], ⟨F, 0⟩⟩ 0 false = .ok (o₁, t₁) ∧
        scanDataBlocks split signedChar pbfFields F.length o₁ t₁ = .ok (o', t) ∧ o' ≤ F.length := by
  simp only [PbfBlockIndexTable.construct, bind, Except.bind]
  constructor
  · intro h
    split at h
    · cases h
    next v₁ hd =>
      split at h
      · cases h
      next v₂ hs =>
        split_ifs at h with hgt
        cases h
        exact ⟨v₁.1, v₁.2, v₂.1, hd, hs, by omega⟩
  · rintro ⟨o₁, t₁, o', hd, hs, hle⟩
    simp only [hd, hs, gt_iff_lt, not_lt.2 hle, if_false]
    rfl

/-- A table the constructor returns comes from a file that splits into a valid header tuple and
valid data tuples; its index holds the data tuples' entries and its descriptor stands at the end
of the file. -/
theorem exists_tuples_of_construct_eq_ok {F : List UInt8} {t : PbfBlockIndexTable}
    (h : PbfBlockIndexTable.construct split signedChar pbfFields F = .ok t) :
    ∃ T₀ Ts, T₀.Valid pbfFields (expectedType false) ∧
      (∀ T ∈ Ts, T.Valid pbfFields (expectedType true)) ∧
      F = (T₀ :: Ts).flatMap BlobTuple.bytes ∧
      t = ⟨dataBlockStarts T₀.bytes.length Ts, ⟨F, F.length⟩⟩ := by
  obtain ⟨o₁, t₁, o', hd, hs, hle⟩ := (construct_eq_ok_iff_scan split signedChar pbfFields F t).1 h
  have ho₁ := (le_of_scanDataBlocks_eq_ok split signedChar pbfFields hs).trans hle
  obtain ⟨T₀, hT₀, hF, rfl⟩ :=
    exists_valid_of_digestAndSkipBlock split signedChar pbfFields rfl hd (by exact ho₁)
  obtain ⟨Ts, hTs, hdrop, -, rfl⟩ :=
    (@scanDataBlocks_eq_ok_iff split signedChar pbfFields F o₁ o' _ _ rfl ho₁).1 ⟨hs, hle⟩
  have hlen := congrArg List.length hF
  simp only [List.drop_zero, List.length_drop, List.length_append] at hF hlen
  refine ⟨T₀, Ts, hT₀, hTs, ?_, ?_⟩
  · rw [List.flatMap_cons, ← hdrop]
    exact hF
  · simp only [Bool.false_eq_true, if_false, List.nil_append]
    congr
    omega

/-- A file that splits into a valid header tuple and valid data tuples, with no byte left over,
is accepted, and the index holds one entry per data tuple. -/
theorem construct_eq_ok_of_tuples {F : List UInt8} {T₀ : BlobTuple} {Ts : List BlobTuple}
    (hT₀ : T₀.Valid pbfFields (expectedType false))
    (hTs : ∀ T ∈ Ts, T.Valid pbfFields (expectedType true))
    (hF : F = (T₀ :: Ts).flatMap BlobTuple.bytes) :
    PbfBlockIndexTable.construct split signedChar pbfFields F =
      .ok ⟨dataBlockStarts T₀.bytes.length Ts, ⟨F, F.length⟩⟩ := by
  rw [List.flatMap_cons] at hF
  have hF₀ : F.drop 0 = T₀.bytes ++ Ts.flatMap BlobTuple.bytes := by rw [List.drop_zero]; exact hF
  have hd : digestAndSkipBlock split signedChar pbfFields ⟨[], ⟨F, 0⟩⟩ 0 false = _ :=
    digestAndSkipBlock_of_valid split signedChar pbfFields rfl hT₀ hF₀
  have hlen := congrArg List.length hF
  simp only [List.length_append] at hlen
  obtain ⟨hs, hle⟩ := (@scanDataBlocks_eq_ok_iff split signedChar pbfFields F _ F.length
    ⟨[], ⟨F, 0 + T₀.bytes.length⟩⟩ _ rfl (by omega)).2 ⟨Ts, hTs, drop_add_length hF₀, rfl, rfl⟩
  exact (construct_eq_ok_iff_scan split signedChar pbfFields F _).2
    ⟨_, _, _, hd, by simpa using hs, hle⟩

/-- The constructor returns normally exactly on the files that split, with no byte left over,
into a valid header tuple followed by valid data tuples; its index then holds one entry per data
tuple, in file order, at the offset of the tuple's body, with its datasize and the first-item
fields `(0, undefined)`. -/
theorem construct_eq_ok_iff (F : List UInt8) (blockStarts : List PbfBlockStart) :
    (∃ t, PbfBlockIndexTable.construct split signedChar pbfFields F = .ok t ∧
        t.blockStarts = blockStarts) ↔
      ∃ T₀ Ts, T₀.Valid pbfFields (expectedType false) ∧
        (∀ T ∈ Ts, T.Valid pbfFields (expectedType true)) ∧
        F = (T₀ :: Ts).flatMap BlobTuple.bytes ∧ blockStarts = dataBlockStarts T₀.bytes.length Ts := by
  constructor
  · rintro ⟨t, h, rfl⟩
    obtain ⟨T₀, Ts, hT₀, hTs, hF, rfl⟩ := exists_tuples_of_construct_eq_ok split signedChar pbfFields h
    exact ⟨T₀, Ts, hT₀, hTs, hF, rfl⟩
  · rintro ⟨T₀, Ts, hT₀, hTs, hF, rfl⟩
    exact ⟨_, construct_eq_ok_of_tuples split signedChar pbfFields hT₀ hTs hF, rfl⟩

end Tuples

/-- A file whose only BlobHeader has no `type` field is accepted, whatever the split of the reads
and the signedness of `char`: the header decodes to the datasize field alone, and
`strncmp(expected_type, data, 0)` compares nothing. -/
theorem construct_accepts_blob_header_without_type (split : ℕ → ℕ → ℕ) (signedChar : Bool) :
    protobufFields [0x18, 0x01] = some [.varint 3 1] ∧
      PbfBlockIndexTable.construct split signedChar protobufFields [0, 0, 0, 2, 0x18, 0x01, 0xAB] =
        .ok ⟨[], ⟨[0, 0, 0, 2, 0x18, 0x01, 0xAB], 7⟩⟩ := by
  refine ⟨rfl, ?_⟩
  have hT : BlobTuple.Valid protobufFields ⟨[0, 0, 0, 2], [0x18, 0x01], [0xAB]⟩
      (expectedType false) :=
    ⟨rfl, by decide, rfl, rfl, le_rfl, by decide⟩
  have hd : digestAndSkipBlock split signedChar protobufFields
      ⟨[], ⟨[0, 0, 0, 2, 0x18, 0x01, 0xAB], 0⟩⟩ 0 false = _ :=
    digestAndSkipBlock_of_valid split signedChar protobufFields rfl hT (List.append_nil _).symm
  exact (construct_eq_ok_iff_scan split signedChar protobufFields _ _).2
    ⟨_, _, _, hd, scanDataBlocks_of_not_lt split signedChar protobufFields (by decide), le_rfl⟩

end Osmium.Io
