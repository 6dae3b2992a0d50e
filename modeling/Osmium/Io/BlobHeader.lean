import Osmium.Io.File

/-!
# Blob header size and `decode_blob_header`

The two reads that open every tuple of a PBF file: the four-byte length of the BlobHeader, in
network byte order, and the BlobHeader message itself, from which `decode_blob_header` takes the
`type` and `datasize` fields.

`get_size_in_network_byte_order` converts each `char` to `uint32_t` before shifting. Where `char`
is signed, a byte of `0x80` or more becomes a negative value and then a number close to `2^32`;
the signedness is a parameter `signedChar`, and `checkSmallSize_getSize_eq_ok_iff` shows that it
makes no difference to which lengths pass `check_small_size`.

The BlobHeader is decoded by protozero, an external library. Its message iteration is a parameter
`pbfFields`, the fields of a message in order or `none` where protozero throws; everything in this
development holds for every such decoder. `protobufFields` is one concrete decoder of the protobuf
wire format, used only to run the model on concrete files.

* `checkSmallSize_getSize_eq_ok_iff`: the length read passes the bound of 64 exactly when its
  big-endian unsigned value is at most 64, and is then that value, for both signedness of `char`.
* `decodeBlobHeader_eq_ok_iff`: what `decode_blob_header` accepts: a last `datasize` that is not
  zero, and a last `type` field that `strncmp` does not tell apart from the expected type over the
  field's own length.
-/

namespace Osmium.Io

/-- `max_small_blob_header_size`: BlobHeaders without index data are 13 or 14 bytes. -/
def maxSmallBlobHeaderSize : ℕ := 64

/-- `max_block_size`: 20 MiB, where blocks are usually 60 KiB to 500 KiB. -/
def maxBlockSize : ℕ := 20 * 1024 * 1024

/-- `check_small_size(size)`. -/
def checkSmallSize (size : ℕ) : Except String ℕ :=
  if size > maxSmallBlobHeaderSize then
    .error "invalid small BlobHeader size (> max_small_blob_header_size)"
  else .ok size

theorem checkSmallSize_eq_ok_iff (size h : ℕ) :
    checkSmallSize size = .ok h ↔ size ≤ 64 ∧ h = size := by
  unfold checkSmallSize maxSmallBlobHeaderSize
  split <;> simp_all [eq_comm]

/-- The big-endian unsigned value of a byte string, most significant byte first. -/
def bigEndianValue (d : List UInt8) : ℕ :=
  d.foldl (fun acc b => 256 * acc + b.toNat) 0

section ByteOrder

variable (signedChar : Bool)

/-- `static_cast<uint32_t>(d[i])` on a `char` holding the byte `b`: where `char` is signed, a
byte of `0x80` or more is the negative value `b - 256`, which converts to `2^32 + b - 256`. -/
def charToUInt32 (b : UInt8) : ℕ :=
  if signedChar ∧ 128 ≤ b.toNat then b.toNat + (2 ^ 32 - 2 ^ 8) else b.toNat

/-- `get_size_in_network_byte_order(d)`: the four converted bytes shifted into place and or-ed
together, each shift on `uint32_t` and so taken modulo `2^32`. -/
def getSizeInNetworkByteOrder (d : List UInt8) : ℕ :=
  charToUInt32 signedChar (d.getD 3 0) |||
    (charToUInt32 signedChar (d.getD 2 0) <<< 8) % 2 ^ 32 |||
    (charToUInt32 signedChar (d.getD 1 0) <<< 16) % 2 ^ 32 |||
    (charToUInt32 signedChar (d.getD 0 0) <<< 24) % 2 ^ 32

/-- Every bit of `x` is a bit of `x ||| y`. -/
private theorem le_or_left (x y : ℕ) : x ≤ x ||| y :=
  Nat.le_of_testBit (by simp_all [Nat.testBit_or])

/-- Every bit of `y` is a bit of `x ||| y`. -/
private theorem le_or_right (x y : ℕ) : y ≤ x ||| y :=
  Nat.or_comm y x ▸ le_or_left y x

/-- A byte below `0x80` converts to its own value whatever the signedness of `char`. -/
theorem charToUInt32_of_lt {b : UInt8} (h : b.toNat < 128 ∨ signedChar = false) :
    charToUInt32 signedChar b = b.toNat := by
  rw [charToUInt32, if_neg]
  rintro ⟨hs, hb⟩
  rcases h with h | h
  · omega
  · simp_all

/-- With every byte converted to its own value, the four shifted bytes occupy disjoint bit
ranges, so their `|||` is the big-endian sum. -/
theorem getSizeInNetworkByteOrder_eq_bigEndianValue (d : List UInt8) (hd : d.length = 4)
    (hsmall : ∀ b ∈ d, b.toNat < 128 ∨ signedChar = false) :
    getSizeInNetworkByteOrder signedChar d = bigEndianValue d := by
  match d, hd with
  | [d0, d1, d2, d3], _ =>
    simp only [List.mem_cons, List.mem_singleton, List.not_mem_nil, or_false,
      forall_eq_or_imp, forall_eq] at hsmall
    obtain ⟨h0, h1, h2, h3⟩ := hsmall
    have b0 : d0.toNat < 256 := d0.toNat_lt_size
    have b1 : d1.toNat < 256 := d1.toNat_lt_size
    have b2 : d2.toNat < 256 := d2.toNat_lt_size
    have b3 : d3.toNat < 256 := d3.toNat_lt_size
    simp only [getSizeInNetworkByteOrder, List.getD_cons_succ, List.getD_cons_zero,
      charToUInt32_of_lt signedChar h0, charToUInt32_of_lt signedChar h1,
      charToUInt32_of_lt signedChar h2, charToUInt32_of_lt signedChar h3, Nat.shiftLeft_eq,
      bigEndianValue, List.foldl_cons, List.foldl_nil]
    have e1 : d3.toNat ||| d2.toNat * 2 ^ 8 = 2 ^ 8 * d2.toNat + d3.toNat := by
      rw [Nat.or_comm, Nat.mul_comm]
      exact (Nat.mul_add_lt_is_or (by omega) _).symm
    have e2 : 2 ^ 8 * d2.toNat + d3.toNat ||| d1.toNat * 2 ^ 16 =
        2 ^ 16 * d1.toNat + (2 ^ 8 * d2.toNat + d3.toNat) := by
      rw [Nat.or_comm, Nat.mul_comm]
      exact (Nat.mul_add_lt_is_or (by omega) _).symm
    have e3 : 2 ^ 16 * d1.toNat + (2 ^ 8 * d2.toNat + d3.toNat) ||| d0.toNat * 2 ^ 24 =
        2 ^ 24 * d0.toNat + (2 ^ 16 * d1.toNat + (2 ^ 8 * d2.toNat + d3.toNat)) := by
      rw [Nat.or_comm, Nat.mul_comm]
      exact (Nat.mul_add_lt_is_or (by omega) _).symm
    rw [Nat.mod_eq_of_lt (by omega), Nat.mod_eq_of_lt (by omega), Nat.mod_eq_of_lt (by omega),
      e1, e2, e3]
    omega

/-- A byte of `0x80` or more, converted from a signed `char`, sets bit 31 wherever the code
shifts it. -/
theorem two_pow_31_le_charToUInt32 {b : UInt8} (hs : signedChar = true) (hb : 128 ≤ b.toNat) :
    2 ^ 31 ≤ charToUInt32 signedChar b ∧
      ∀ k ∈ [8, 16, 24], 2 ^ 31 ≤ (charToUInt32 signedChar b <<< k) % 2 ^ 32 := by
  have hlt : b.toNat < 256 := b.toNat_lt_size
  simp only [charToUInt32, hs, hb, and_self, if_true, List.mem_cons, List.mem_singleton,
    List.not_mem_nil, or_false, forall_eq_or_imp, forall_eq, Nat.shiftLeft_eq]
  omega

/-- Where `char` is signed, a byte of `0x80` or more anywhere in the length makes
`get_size_in_network_byte_order` at least `2^31`. -/
theorem two_pow_31_le_getSizeInNetworkByteOrder {d : List UInt8} (hd : d.length = 4)
    (hs : signedChar = true) {b : UInt8} (hb : b ∈ d) (h128 : 128 ≤ b.toNat) :
    2 ^ 31 ≤ getSizeInNetworkByteOrder signedChar d := by
  obtain ⟨hself, hshift⟩ := two_pow_31_le_charToUInt32 signedChar hs h128
  match d, hd with
  | [d0, d1, d2, d3], _ =>
    simp only [List.mem_cons, List.mem_singleton, List.not_mem_nil, or_false] at hb
    simp only [List.mem_cons, List.mem_singleton, List.not_mem_nil, or_false,
      forall_eq_or_imp, forall_eq] at hshift
    simp only [getSizeInNetworkByteOrder, List.getD_cons_succ, List.getD_cons_zero]
    rcases hb with rfl | rfl | rfl | rfl
    · exact hshift.2.2.trans (le_or_right _ _)
    · exact hshift.2.1.trans ((le_or_right _ _).trans (le_or_left _ _))
    · exact hshift.1.trans (((le_or_right _ _).trans (le_or_left _ _)).trans (le_or_left _ _))
    · exact hself.trans (((le_or_left _ _).trans (le_or_left _ _)).trans (le_or_left _ _))

/-- Every byte of a four-byte length is at most its big-endian value. -/
theorem le_bigEndianValue {d : List UInt8} (hd : d.length = 4) {b : UInt8} (hb : b ∈ d) :
    b.toNat ≤ bigEndianValue d := by
  match d, hd with
  | [d0, d1, d2, d3], _ =>
    simp only [List.mem_cons, List.mem_singleton, List.not_mem_nil, or_false] at hb
    simp only [bigEndianValue, List.foldl_cons, List.foldl_nil]
    rcases hb with rfl | rfl | rfl | rfl <;> omega

/-- Whatever the signedness of `char`, the length `get_size_in_network_byte_order` reads passes
`check_small_size` exactly when the four bytes, as a big-endian unsigned number, are at most
64, and it is then that number. -/
theorem checkSmallSize_getSize_eq_ok_iff (d : List UInt8) (hd : d.length = 4) (h : ℕ) :
    checkSmallSize (getSizeInNetworkByteOrder signedChar d) = .ok h ↔
      bigEndianValue d ≤ 64 ∧ h = bigEndianValue d := by
  rw [checkSmallSize_eq_ok_iff]
  by_cases hsmall : ∀ b ∈ d, b.toNat < 128 ∨ signedChar = false
  · rw [getSizeInNetworkByteOrder_eq_bigEndianValue signedChar d hd hsmall]
  · -- A byte of `0x80` or more under a signed `char`: both values are far above 64.
    push_neg at hsmall
    obtain ⟨b, hb, h128, hs⟩ := hsmall
    have hget := two_pow_31_le_getSizeInNetworkByteOrder signedChar hd (by simpa using hs) hb
      h128
    have hbe := le_bigEndianValue hd hb
    omega

end ByteOrder

/-- The big-endian length in the four bytes at position `p` of the file content `F`. -/
def headerSizeAt (F : List UInt8) (p : ℕ) : ℕ :=
  bigEndianValue ((F.drop p).take 4)

/-- The BlobHeader bytes that follow the length at position `p`. -/
def headerAt (F : List UInt8) (p : ℕ) : List UInt8 :=
  (F.drop (p + 4)).take (headerSizeAt F p)

section ReadSize

variable (split : ℕ → ℕ → ℕ) (signedChar : Bool)

/-- `read_blob_header_size_from_file(fd)`: four bytes in network byte order, the length of the
BlobHeader that follows. -/
def readBlobHeaderSizeFromFile (fd : FileDescriptor) : Except String (ℕ × FileDescriptor) :=
  match readExactly split fd 4 with
  | (true, buffer, fd) => (checkSmallSize (getSizeInNetworkByteOrder signedChar buffer)).map (·, fd)
  | (false, _, _) => .error "unexpected EOF in blob header size"

/-- The length prefix is read off the file: it takes the four bytes at the position, which must
be there, and their big-endian value must be at most 64. -/
theorem readBlobHeaderSizeFromFile_eq_ok_iff (fd fd' : FileDescriptor) (h : ℕ) :
    readBlobHeaderSizeFromFile split signedChar fd = .ok (h, fd') ↔
      4 ≤ fd.content.length - fd.position ∧ headerSizeAt fd.content fd.position ≤ 64 ∧
        h = headerSizeAt fd.content fd.position ∧ fd' = ⟨fd.content, fd.position + 4⟩ := by
  rw [readBlobHeaderSizeFromFile, readExactly_eq, headerSizeAt]
  split_ifs with hfit
  · have hlen : ((fd.content.drop fd.position).take 4).length = 4 := by
      simp only [List.length_take, List.length_drop]
      omega
    have key := checkSmallSize_getSize_eq_ok_iff signedChar _ hlen
    cases hcheck : checkSmallSize (getSizeInNetworkByteOrder signedChar
        ((fd.content.drop fd.position).take 4)) with
    | error e =>
      dsimp only
      rw [hcheck]
      simp only [Except.map, reduceCtorEq, false_iff, not_and]
      rintro - hle rfl
      simp [(key _).2 ⟨hle, rfl⟩] at hcheck
    | ok v =>
      obtain ⟨hle, rfl⟩ := (key v).1 hcheck
      dsimp only
      rw [hcheck]
      simp [Except.map, hfit, hle, eq_comm]
  · simp [hfit]

end ReadSize

/-- A field of a protobuf message as `protozero::pbf_message::next()` presents it: its tag,
with the payload of the wire types `decode_blob_header` reads. -/
inductive PbfField
  /-- A `varint` field and its value as protozero decodes it (at most 64 bits). -/
  | varint (tag : ℕ) (value : ℕ)
  /-- A `length_delimited` field and its bytes, the `data_view` of `get_view()`. -/
  | lengthDelimited (tag : ℕ) (view : List UInt8)
  /-- A `fixed32` or `fixed64` field, which `decode_blob_header` skips. -/
  | fixed (tag : ℕ)
  deriving DecidableEq, Repr

/-- `size_t blob_header_datasize = pbf_blob_header.get_int32()`: the varint cut to a signed
32-bit value, then converted to a 64-bit `size_t`, where a negative value wraps. -/
def int32ToSizeT (value : ℕ) : ℕ :=
  if value % 2 ^ 32 < 2 ^ 31 then value % 2 ^ 32 else value % 2 ^ 32 + (2 ^ 64 - 2 ^ 32)

/-- One pass of the `while (pbf_blob_header.next())` loop: field 1 (`required_string_type`)
and field 3 (`required_int32_datasize`) overwrite what was seen before; others are skipped. -/
def blobHeaderField (header : List UInt8 × ℕ) : PbfField → List UInt8 × ℕ
  | .lengthDelimited 1 view => (view, header.2)
  | .varint 3 value => (header.1, int32ToSizeT value)
  | _ => header

/-- `std::strncmp(s1, s2, n)`: compare at most `n` positions and stop after a zero byte; a byte
past the end of a list reads as the terminating zero. -/
def strncmp (s1 s2 : List UInt8) : ℕ → ℤ
  | 0 => 0
  | n + 1 =>
    if s1.headD 0 ≠ s2.headD 0 then (s1.headD 0).toNat - (s2.headD 0).toNat
    else if s1.headD 0 = 0 then 0
    else strncmp s1.tail s2.tail n

/-- The bytes of an ASCII string literal, without its terminating zero. -/
def asciiBytes (s : String) : List UInt8 :=
  s.toList.map fun c => c.toNat.toUInt8

/-- `expected_type` in `digest_and_skip_block`: `"OSMData"` for a block to be indexed and
`"OSMHeader"` for the header block. -/
def expectedType (shouldIndexBlock : Bool) : List UInt8 :=
  asciiBytes (if shouldIndexBlock then "OSMData" else "OSMHeader")

section Decode

variable (pbfFields : List UInt8 → Option (List PbfField))

/-- `decode_blob_header(data, expected_type)`: the last `type` and `datasize` fields of the
message; the datasize must not be zero, and `strncmp` over the type field's own length must
not tell it apart from the expected type. -/
def decodeBlobHeader (data expected : List UInt8) : Except String ℕ :=
  match pbfFields data with
  | none => .error "protozero exception"
  | some fields =>
    let header := fields.foldl blobHeaderField ([], 0)
    if header.2 = 0 then .error "PBF format error: BlobHeader.datasize missing or zero."
    else if strncmp expected header.1 header.1.length ≠ 0 then
      .error "blob does not have expected type (OSMHeader in first blob, OSMData in following blobs)"
    else .ok header.2

/-- What `decode_blob_header` accepts: a message protozero can iterate, whose last `datasize` is
not zero and whose last `type` field `strncmp` does not tell apart from the expected type over the
field's own length. -/
theorem decodeBlobHeader_eq_ok_iff {data expected : List UInt8} {d : ℕ} :
    decodeBlobHeader pbfFields data expected = .ok d ↔
      ∃ fields, pbfFields data = some fields ∧ (fields.foldl blobHeaderField ([], 0)).2 = d ∧ d ≠ 0 ∧
        strncmp expected (fields.foldl blobHeaderField ([], 0)).1
          (fields.foldl blobHeaderField ([], 0)).1.length = 0 := by
  unfold decodeBlobHeader
  split
  · rename_i hnone
    simp [hnone]
  · rename_i fields hfields
    simp only [hfields, Option.some.injEq, exists_eq_left']
    split_ifs with h0 hcmp
    · simp only [reduceCtorEq, false_iff, not_and]
      omega
    · simp only [reduceCtorEq, false_iff, not_and]
      exact fun _ _ => hcmp
    · simp only [Except.ok.injEq]
      constructor
      · rintro rfl; exact ⟨rfl, h0, not_not.1 hcmp⟩
      · rintro ⟨rfl, -⟩; rfl

/-- A datasize `decode_blob_header` returns is never zero. -/
theorem decodeBlobHeader_ne_zero {data expected : List UInt8} {d : ℕ}
    (h : decodeBlobHeader pbfFields data expected = .ok d) : d ≠ 0 := by
  obtain ⟨-, -, -, hd, -⟩ := (decodeBlobHeader_eq_ok_iff pbfFields).1 h
  exact hd

end Decode

/-- Reads a base-128 varint of at most `fuel` bytes, lowest group first. -/
def readVarint : ℕ → List UInt8 → Option (ℕ × List UInt8)
  | 0, _ => none
  | _ + 1, [] => none
  | fuel + 1, b :: rest =>
    if b.toNat < 128 then some (b.toNat, rest)
    else (readVarint fuel rest).map fun r => (b.toNat - 128 + 128 * r.1, r.2)

/-- A decoder of the protobuf wire format (varint keys; wire types 0, 1, 2 and 5), one instance
of `pbfFields` for running the model on concrete files. -/
def protobufFields (bytes : List UInt8) : Option (List PbfField) :=
  go bytes.length bytes
where
  /-- One field per round; every field takes at least one byte, so the length is enough fuel. -/
  go : ℕ → List UInt8 → Option (List PbfField)
    | _, [] => some []
    | 0, _ :: _ => none
    | fuel + 1, b :: bs => do
      let (key, rest) ← readVarint 10 (b :: bs)
      match key % 8 with
      | 0 =>
        let (value, rest) ← readVarint 10 rest
        return .varint (key / 8) (value % 2 ^ 64) :: (← go fuel rest)
      | 2 =>
        let (len, rest) ← readVarint 10 rest
        if rest.length < len then none
        else return .lengthDelimited (key / 8) (rest.take len) :: (← go fuel (rest.drop len))
      | 1 => if rest.length < 8 then none else return .fixed (key / 8) :: (← go fuel (rest.drop 8))
      | 5 => if rest.length < 4 then none else return .fixed (key / 8) :: (← go fuel (rest.drop 4))
      | _ => none

end Osmium.Io
