import Mathlib.Data.List.Basic
import Mathlib.Algebra.Group.Nat.Basic
import Mathlib.Data.List.Forall2

/-!
# The arena buffer

The byte store every builder writes into. `osmium/memory/buffer.hpp` and
`osmium/memory/item.hpp` are not part of the sources modelled here, so the operations below are
modelled from the specification of the arena buffer: `reserve(n)` makes room for the next `n`
bytes at the end of the written part and may relocate the whole store, after which every location
taken before is invalid; content already written is never moved within the store or altered by a
reservation.

Bytes are lists of `UInt8`. A write at an offset replaces the bytes there (`writeBytes`), and the
fixed-width integer fields of the records are stored little-endian (`encodeLE`, `decodeLE`), as on
the 64-bit little-endian machines libosmium's record layout is laid out for.

How much a growing store grows, and what the bytes of fresh storage hold before a builder writes
them, are the allocator's business; both are parameters (`Allocator`), and no result below
depends on them. A relocation is tracked by a generation counter, so that a raw pointer taken
before it (`Ptr`) can be told apart from one into the current storage: a store through a stale
pointer lands in released memory and leaves the buffer as it was.

* `decodeLE_encodeLE`: a little-endian field reads back the value written, modulo its width.
* `readBytes_writeBytes`, `drop_writeBytes_of_le`: what a write changes and what it leaves.
* `reserveSpace_write_data`: a reservation filled by one write appends exactly the bytes written;
  `reserveSpace_write_prefix_data`: one whose first bytes are written keeps fresh storage after them.
* `Fills data cells`: the bytes hold every byte the cells say the code writes; a `none` cell is a byte
  the code never writes, such as a record's padding after its last field.
-/

namespace Osmium.Memory

/-- `osmium::memory::align_bytes`: items are padded to a multiple of eight bytes. -/
def alignBytes : ℕ := 8

/-- `osmium::memory::padded_length(length)`: `(length + align_bytes - 1) & ~(align_bytes - 1)`,
which for the power of two `align_bytes` rounds `length` up to a multiple of it. -/
def paddedLength (length : ℕ) : ℕ := (length + alignBytes - 1) / alignBytes * alignBytes

section Padding

variable (n : ℕ)

@[simp]
theorem paddedLength_mod : paddedLength n % alignBytes = 0 := by
  unfold paddedLength alignBytes
  omega

theorem le_paddedLength : n ≤ paddedLength n := by
  unfold paddedLength alignBytes
  omega

theorem paddedLength_lt : paddedLength n < n + alignBytes := by
  unfold paddedLength alignBytes
  omega

theorem paddedLength_add_alignBytes : paddedLength (n + alignBytes) = paddedLength n + alignBytes := by
  unfold paddedLength alignBytes
  omega

theorem paddedLength_eq_self {n : ℕ} (h : n % alignBytes = 0) : paddedLength n = n := by
  unfold paddedLength alignBytes at *
  omega

/-- Padding after a whole number of alignment units pads only what follows them. -/
theorem paddedLength_aligned_add {m : ℕ} (h : m % alignBytes = 0) : paddedLength (m + n) = m + paddedLength n := by
  unfold paddedLength alignBytes at *
  omega

/-- What `add_padding` adds, `align_bytes - size % align_bytes` unless that is a whole unit,
brings `size` to `padded_length(size)`. -/
theorem add_padding_eq_paddedLength {size : ℕ} (h : alignBytes - size % alignBytes ≠ alignBytes) :
    size + (alignBytes - size % alignBytes) = paddedLength size := by
  unfold paddedLength alignBytes at *
  omega

end Padding

/-! ### Little-endian fields -/

/-- The `width` bytes an x86-64 store of a `width`-byte unsigned integer writes, lowest first; the
value is reduced modulo `2 ^ (8 * width)` as the store's type reduces it. -/
def encodeLE : ℕ → ℕ → List UInt8
  | 0, _ => []
  | width + 1, value => UInt8.ofNat value :: encodeLE width (value / 256)

/-- The unsigned integer a little-endian load of `bytes` reads. -/
def decodeLE : List UInt8 → ℕ
  | [] => 0
  | byte :: rest => byte.toNat + 256 * decodeLE rest

@[simp]
theorem decodeLE_nil : decodeLE [] = 0 := rfl

@[simp]
theorem decodeLE_cons (byte : UInt8) (rest : List UInt8) :
    decodeLE (byte :: rest) = byte.toNat + 256 * decodeLE rest := rfl

@[simp]
theorem encodeLE_zero (value : ℕ) : encodeLE 0 value = [] := rfl

@[simp]
theorem encodeLE_succ (width value : ℕ) :
    encodeLE (width + 1) value = UInt8.ofNat value :: encodeLE width (value / 256) := rfl

@[simp]
theorem length_encodeLE (width value : ℕ) : (encodeLE width value).length = width := by
  induction width generalizing value with
  | zero => rfl
  | succ width ih => simp [ih]

/-- Writing and then reading a field keeps the value modulo the field's range. -/
@[simp]
theorem decodeLE_encodeLE (width value : ℕ) :
    decodeLE (encodeLE width value) = value % 256 ^ width := by
  induction width generalizing value with
  | zero => simp [Nat.mod_one]
  | succ width ih =>
    simp only [encodeLE_succ, decodeLE_cons, ih]
    change value % 256 + 256 * (value / 256 % 256 ^ width) = value % 256 ^ (width + 1)
    rw [Nat.pow_succ, Nat.mul_comm (256 ^ width) 256, Nat.mod_mul]

/-- The range of a four-byte field. -/
theorem two_pow_32 : (2 : ℕ) ^ 32 = 256 ^ 4 := rfl

/-- The range of a two-byte field. -/
theorem two_pow_16 : (2 : ℕ) ^ 16 = 256 ^ 2 := rfl

/-- A field written with a value congruent modulo its range holds the same bytes. -/
theorem encodeLE_mod (width value : ℕ) : encodeLE width (value % 256 ^ width) = encodeLE width value := by
  induction width generalizing value with
  | zero => rfl
  | succ width ih =>
    have hlow : UInt8.ofNat (value % 256 ^ (width + 1)) = UInt8.ofNat value := by
      apply UInt8.eq_of_val_eq
      apply Fin.ext
      change value % 256 ^ (width + 1) % 256 = value % 256
      rw [Nat.pow_succ, Nat.mod_mul_left_mod]
    have hhigh : value % 256 ^ (width + 1) / 256 = value / 256 % 256 ^ width := by
      rw [Nat.pow_succ, Nat.mul_comm, Nat.mod_mul_right_div_self]
    rw [encodeLE_succ, encodeLE_succ, hlow, hhigh, ih]

/-! ### Reading and writing byte ranges -/

/-- The `length` bytes of `data` from `offset` on. -/
def readBytes (data : List UInt8) (offset length : ℕ) : List UInt8 :=
  (data.drop offset).take length

/-- `data` with the bytes from `offset` on replaced by `bytes`, as `std::copy_n` to that address
leaves the store. -/
def writeBytes (data : List UInt8) (offset : ℕ) (bytes : List UInt8) : List UInt8 :=
  data.take offset ++ bytes ++ data.drop (offset + bytes.length)

/-- The little-endian field of `width` bytes at `offset`. -/
def readLE (data : List UInt8) (offset width : ℕ) : ℕ :=
  decodeLE (readBytes data offset width)

/-- A field read at an offset into the bytes from `k` on. -/
theorem readLE_add_of_drop_eq {data rest : List UInt8} {k : ℕ} (h : data.drop k = rest) (j width : ℕ) :
    readLE data (k + j) width = decodeLE ((rest.drop j).take width) := by
  rw [readLE, readBytes, ← List.drop_drop, h]

/-- A field read depends only on the bytes up to its end. -/
theorem readLE_eq_of_take_eq {data data' : List UInt8} {offset width : ℕ}
    (h : data.take (offset + width) = data'.take (offset + width)) :
    readLE data offset width = readLE data' offset width := by
  rw [readLE, readLE, readBytes, readBytes, List.take_drop, List.take_drop, h]

/-- A field read where the bytes from `k` on are known to hold it. -/
theorem readLE_of_drop_eq_append {data xs field ys : List UInt8} {k : ℕ} (h : data.drop k = xs ++ field ++ ys) :
    readLE data (k + xs.length) field.length = decodeLE field := by
  rw [readLE_add_of_drop_eq h, List.append_assoc, List.drop_left, List.take_left]

/-- A field read depends only on the field's own bytes. -/
theorem readLE_congr {data data' : List UInt8} {offset width : ℕ}
    (h : ∀ i, offset ≤ i → i < offset + width → data'[i]? = data[i]?) :
    readLE data' offset width = readLE data offset width := by
  unfold readLE readBytes
  congr 1
  refine List.ext_getElem? fun j => ?_
  rw [List.getElem?_take, List.getElem?_take, List.getElem?_drop, List.getElem?_drop]
  split
  · exact h (offset + j) (Nat.le_add_right _ _) (by omega)
  · rfl

section Writes

variable {data : List UInt8} {offset : ℕ} {bytes : List UInt8}

theorem length_writeBytes (h : offset + bytes.length ≤ data.length) :
    (writeBytes data offset bytes).length = data.length := by
  simp only [writeBytes, List.length_append, List.length_take, List.length_drop]
  omega

/-- A write never shortens the bytes. -/
theorem le_length_writeBytes : data.length ≤ (writeBytes data offset bytes).length := by
  simp only [writeBytes, List.length_append, List.length_take, List.length_drop]
  omega

/-- A write reads back. -/
theorem readBytes_writeBytes (h : offset + bytes.length ≤ data.length) :
    readBytes (writeBytes data offset bytes) offset bytes.length = bytes := by
  have hlen : (data.take offset).length = offset := by simp only [List.length_take]; omega
  simp only [readBytes, writeBytes, List.append_assoc, List.drop_left' hlen, List.take_left]

/-- A write leaves the bytes before it. -/
theorem take_writeBytes_of_le {n : ℕ} (h : n ≤ offset) (hn : n ≤ data.length) :
    (writeBytes data offset bytes).take n = data.take n := by
  rw [writeBytes, List.append_assoc, List.take_append_of_le_length (by simp only [List.length_take]; omega),
    List.take_take, min_eq_left h]

/-- The bytes past a write are the bytes that were there. -/
theorem drop_writeBytes_of_le {k : ℕ} (h : offset + bytes.length ≤ k) :
    (writeBytes data offset bytes).drop k = data.drop k := by
  by_cases hk : offset + bytes.length ≤ data.length
  · have hlen : (data.take offset ++ bytes).length = offset + bytes.length := by
      simp only [List.length_append, List.length_take]; omega
    rw [writeBytes, ← Nat.add_sub_cancel' h, ← List.drop_drop, List.drop_left' hlen, List.drop_drop,
      Nat.add_sub_cancel' h]
  · have hdrop : data.drop (offset + bytes.length) = [] := List.drop_eq_nil_of_le (by omega)
    have hwritten : (data.take offset ++ bytes).drop k = [] :=
      List.drop_eq_nil_of_le (by simp only [List.length_append, List.length_take]; omega)
    rw [writeBytes, hdrop, List.append_nil, hwritten, List.drop_eq_nil_of_le (by omega)]

/-- A write leaves every written byte outside the range it covers. -/
theorem getElem?_writeBytes_of_not_mem {i : ℕ} (hi : i < data.length) (h : i < offset ∨ offset + bytes.length ≤ i) :
    (writeBytes data offset bytes)[i]? = data[i]? := by
  rcases h with h | h
  · rw [← List.getElem?_take_of_lt (Nat.lt_succ_self i), take_writeBytes_of_le h hi,
      List.getElem?_take_of_lt (Nat.lt_succ_self i)]
  · rw [← Nat.add_zero i, ← List.getElem?_drop, drop_writeBytes_of_le h, List.getElem?_drop]

/-- A write past a prefix leaves the prefix and writes into the rest. -/
theorem writeBytes_append_right {xs ys : List UInt8} (h : xs.length ≤ offset) :
    writeBytes (xs ++ ys) offset bytes = xs ++ writeBytes ys (offset - xs.length) bytes := by
  simp only [writeBytes, List.take_append_eq_append_take, List.drop_append_eq_append_drop,
    List.take_of_length_le h, List.drop_eq_nil_of_le (show xs.length ≤ offset + bytes.length by omega),
    List.nil_append, List.append_assoc, Nat.sub_add_comm h]

/-- A write within a prefix leaves what follows it. -/
theorem writeBytes_append_left {xs ys : List UInt8} (h : offset + bytes.length ≤ xs.length) :
    writeBytes (xs ++ ys) offset bytes = writeBytes xs offset bytes ++ ys := by
  simp only [writeBytes, List.take_append_of_le_length (show offset ≤ xs.length by omega),
    List.drop_append_of_le_length h, List.append_assoc]

@[simp]
theorem writeBytes_zero (ys : List UInt8) : writeBytes ys 0 bytes = bytes ++ ys.drop bytes.length := by
  simp [writeBytes]

/-- Filling the bytes a reservation appended: the written bytes are appended. -/
theorem writeBytes_length_append {xs ys : List UInt8} (h : ys.length = bytes.length) :
    writeBytes (xs ++ ys) xs.length bytes = xs ++ bytes := by
  rw [writeBytes_append_right le_rfl, Nat.sub_self, writeBytes_zero, List.drop_eq_nil_of_le h.le,
    List.append_nil]

/-- Two adjacent writes are one write of both. -/
theorem writeBytes_writeBytes {more : List UInt8} (h : offset + bytes.length ≤ data.length) :
    writeBytes (writeBytes data offset bytes) (offset + bytes.length) more =
      writeBytes data offset (bytes ++ more) := by
  have hlen : (data.take offset ++ bytes).length = offset + bytes.length := by
    simp only [List.length_append, List.length_take]; omega
  rw [show writeBytes data offset bytes = (data.take offset ++ bytes) ++ data.drop (offset + bytes.length)
      from rfl, writeBytes_append_right hlen.le, hlen, Nat.sub_self, writeBytes_zero, List.drop_drop]
  simp only [writeBytes, List.length_append, List.append_assoc, Nat.add_assoc, Nat.add_comm more.length]

/-- A second write over the bytes of the first replaces them. -/
theorem writeBytes_writeBytes_self {more : List UInt8} (h : offset + bytes.length ≤ data.length)
    (hlen : more.length = bytes.length) :
    writeBytes (writeBytes data offset bytes) offset more = writeBytes data offset more := by
  have htake : (data.take offset).length = offset := by simp only [List.length_take]; omega
  rw [show writeBytes data offset bytes = data.take offset ++ (bytes ++ data.drop (offset + bytes.length)) by
      rw [writeBytes, List.append_assoc],
    writeBytes_append_right htake.le, htake, Nat.sub_self, writeBytes_zero, hlen, List.drop_left, writeBytes, hlen,
    List.append_assoc]

/-- Writes to disjoint ranges commute. -/
theorem writeBytes_comm {offset' : ℕ} {more : List UInt8} (h : offset + bytes.length ≤ offset')
    (h' : offset' + more.length ≤ data.length) :
    writeBytes (writeBytes data offset bytes) offset' more = writeBytes (writeBytes data offset' more) offset bytes := by
  have htake : (data.take offset').length = offset' := by simp only [List.length_take]; omega
  have hwritten : (writeBytes (data.take offset') offset bytes).length = offset' := by
    rw [length_writeBytes (by omega), htake]
  conv_lhs => rw [← List.take_append_drop offset' data]
  conv_rhs => rw [← List.take_append_drop offset' data]
  rw [writeBytes_append_left (by omega), writeBytes_append_right hwritten.le, hwritten,
    writeBytes_append_right htake.le, htake, writeBytes_append_left (by rw [htake]; exact h)]

/-- A write into zeros. -/
theorem writeBytes_replicate {n : ℕ} (h : offset + bytes.length ≤ n) :
    writeBytes (List.replicate n 0) offset bytes =
      List.replicate offset 0 ++ bytes ++ List.replicate (n - (offset + bytes.length)) 0 := by
  rw [writeBytes, List.take_replicate, List.drop_replicate, min_eq_left (by omega)]

/-- Two writes, in order, into zeros. -/
theorem writeBytes_writeBytes_replicate {n offset' : ℕ} {more : List UInt8} (h : offset + bytes.length ≤ offset')
    (h' : offset' + more.length ≤ n) :
    writeBytes (writeBytes (List.replicate n 0) offset bytes) offset' more =
      List.replicate offset 0 ++ bytes ++ List.replicate (offset' - (offset + bytes.length)) 0 ++ more ++
        List.replicate (n - (offset' + more.length)) 0 := by
  rw [writeBytes_comm h (by simpa using h'), writeBytes_replicate h',
    writeBytes_append_left (by simp only [List.length_append, List.length_replicate]; omega),
    writeBytes_append_left (by simpa using h), writeBytes_replicate h]

end Writes

/-! ### The buffer -/

/-- The allocator's choices, which the specification leaves open: the capacity a store that has
to grow moves to, and the byte fresh storage holds at each position before anything is written
there. -/
structure Allocator where
  /-- The capacity picked when a store of capacity `capacity` has to hold `needed` bytes. -/
  grow : (capacity needed : ℕ) → ℕ
  /-- The unspecified content of fresh storage at each position. -/
  uninit : ℕ → UInt8

/-- `osmium::memory::Buffer` as the builders use it: the written bytes, the capacity of the current
storage, and how often the storage has been relocated, which names the current storage. -/
structure Buffer where
  /-- The bytes written so far, from the start of the buffer. -/
  data : List UInt8
  /-- How many bytes the current storage holds. -/
  capacity : ℕ
  /-- The number of relocations so far. -/
  generation : ℕ
  deriving DecidableEq, Repr

/-- A raw pointer into a buffer's storage: the storage it was taken from and the offset in it. -/
structure Ptr where
  /-- The storage the pointer was taken from. -/
  generation : ℕ
  /-- The offset it points at. -/
  offset : ℕ
  deriving DecidableEq, Repr

/-- The pointer to a field `k` bytes into the record `p` points at. -/
def Ptr.field (p : Ptr) (k : ℕ) : Ptr := ⟨p.generation, p.offset + k⟩

/-- An allocator for examples: a store that has to grow doubles its capacity, or takes what it
needs if that is more, and fresh storage holds `0xAA`. -/
def Allocator.sample : Allocator where
  grow capacity _ := 2 * capacity
  uninit _ := 0xAA

namespace Buffer

variable (a : Allocator)

/-- What fresh storage holds at the positions `start`, …, `start + count - 1`. -/
def fresh (start count : ℕ) : List UInt8 := (List.range' start count).map a.uninit

/-- Modelled from the spec: `reserve_space(size)` makes room for `size` more bytes after the
written part and returns their location. When they do not fit the current storage, the store moves
to a larger one, and every location taken before is invalid. -/
def reserveSpace (buf : Buffer) (size : ℕ) : Buffer :=
  if buf.data.length + size ≤ buf.capacity then
    { buf with data := buf.data ++ fresh a buf.data.length size }
  else
    { data := buf.data ++ fresh a buf.data.length size
      capacity := max (buf.data.length + size) (a.grow buf.capacity (buf.data.length + size))
      generation := buf.generation + 1 }

/-- A write at `offset` through a location resolved from the buffer at the time of the write, as
`item()` and `object()` resolve the builder's item. -/
def write (buf : Buffer) (offset : ℕ) (bytes : List UInt8) : Buffer :=
  { buf with data := writeBytes buf.data offset bytes }

/-- The raw pointer to `offset` in the current storage. -/
def ptr (buf : Buffer) (offset : ℕ) : Ptr := ⟨buf.generation, offset⟩

/-- A store through a raw pointer: it reaches the buffer only while the pointer is into the current
storage; a pointer taken before a relocation points into released storage. -/
def storeAt (buf : Buffer) (p : Ptr) (bytes : List UInt8) : Buffer :=
  if p.generation = buf.generation then buf.write p.offset bytes else buf

@[simp]
theorem length_fresh (start count : ℕ) : (fresh a start count).length = count := by
  simp [fresh]

@[simp]
theorem reserveSpace_data (buf : Buffer) (size : ℕ) :
    (reserveSpace a buf size).data = buf.data ++ fresh a buf.data.length size := by
  unfold reserveSpace
  split <;> rfl

theorem reserveSpace_generation (buf : Buffer) (size : ℕ) :
    (reserveSpace a buf size).generation =
      if buf.data.length + size ≤ buf.capacity then buf.generation else buf.generation + 1 := by
  unfold reserveSpace
  split <;> rfl

@[simp]
theorem write_data (buf : Buffer) (offset : ℕ) (bytes : List UInt8) :
    (buf.write offset bytes).data = writeBytes buf.data offset bytes := rfl

@[simp]
theorem write_generation (buf : Buffer) (offset : ℕ) (bytes : List UInt8) :
    (buf.write offset bytes).generation = buf.generation := rfl

@[simp]
theorem write_capacity (buf : Buffer) (offset : ℕ) (bytes : List UInt8) :
    (buf.write offset bytes).capacity = buf.capacity := rfl

@[simp]
theorem ptr_generation (buf : Buffer) (offset : ℕ) : (buf.ptr offset).generation = buf.generation :=
  rfl

theorem storeAt_of_eq {buf : Buffer} {p : Ptr} (h : p.generation = buf.generation) (bytes : List UInt8) :
    buf.storeAt p bytes = buf.write p.offset bytes := if_pos h

theorem storeAt_of_ne {buf : Buffer} {p : Ptr} (h : p.generation ≠ buf.generation) (bytes : List UInt8) :
    buf.storeAt p bytes = buf := if_neg h

@[simp]
theorem storeAt_generation (buf : Buffer) (p : Ptr) (bytes : List UInt8) :
    (buf.storeAt p bytes).generation = buf.generation := by
  unfold storeAt; split <;> rfl

@[simp]
theorem storeAt_capacity (buf : Buffer) (p : Ptr) (bytes : List UInt8) :
    (buf.storeAt p bytes).capacity = buf.capacity := by
  unfold storeAt; split <;> rfl

theorem length_storeAt {buf : Buffer} {p : Ptr} {bytes : List UInt8}
    (h : p.offset + bytes.length ≤ buf.data.length) : (buf.storeAt p bytes).data.length = buf.data.length := by
  unfold storeAt; split
  · exact length_writeBytes h
  · rfl

@[simp]
theorem reserveSpace_capacity_of_le {buf : Buffer} {size : ℕ} (h : buf.data.length + size ≤ buf.capacity) :
    (reserveSpace a buf size).capacity = buf.capacity := by
  simp [reserveSpace, h]

theorem reserveSpace_generation_of_le {buf : Buffer} {size : ℕ} (h : buf.data.length + size ≤ buf.capacity) :
    (reserveSpace a buf size).generation = buf.generation := by
  simp [reserveSpace, h]

theorem reserveSpace_generation_of_lt {buf : Buffer} {size : ℕ} (h : buf.capacity < buf.data.length + size) :
    (reserveSpace a buf size).generation = buf.generation + 1 := by
  simp [reserveSpace, Nat.not_le.2 h]

/-- A reservation that the caller fills with one write appends exactly the bytes written. -/
theorem reserveSpace_write_data (buf : Buffer) (bytes : List UInt8) :
    ((reserveSpace a buf bytes.length).write buf.data.length bytes).data = buf.data ++ bytes := by
  simp only [write_data, reserveSpace_data]
  exact writeBytes_length_append (length_fresh a _ _)

theorem fresh_add (start m n : ℕ) : fresh a start (m + n) = fresh a start m ++ fresh a (start + m) n := by
  simp only [fresh, ← List.map_append, List.range'_append_1, Nat.add_comm n]

/-- A reservation whose first bytes the caller writes with one write: the bytes written are appended,
and after them the rest of the reservation holds what fresh storage held there. -/
theorem reserveSpace_write_prefix_data (buf : Buffer) {size : ℕ} {bytes : List UInt8} (h : bytes.length ≤ size) :
    ((reserveSpace a buf size).write buf.data.length bytes).data =
      buf.data ++ bytes ++ fresh a (buf.data.length + bytes.length) (size - bytes.length) := by
  obtain ⟨rest, rfl⟩ := Nat.exists_eq_add_of_le h
  rw [write_data, reserveSpace_data, fresh_add, ← List.append_assoc,
    writeBytes_append_left (by simp only [List.length_append, length_fresh]; omega),
    writeBytes_length_append (length_fresh a _ _), Nat.add_sub_cancel_left]

end Buffer

/-! ### The bytes the code writes -/

/-- `bytes`, each a byte the code writes. -/
def written (bytes : List UInt8) : List (Option UInt8) := bytes.map some

/-- `data` holds what `cells` describes: as many bytes, and at every written cell the byte written. A
`none` cell is a byte the code never writes, which keeps what its reservation held. -/
def Fills (data : List UInt8) (cells : List (Option UInt8)) : Prop :=
  List.Forall₂ (fun byte cell => ∀ b ∈ cell, byte = b) data cells

instance (data : List UInt8) (cells : List (Option UInt8)) : Decidable (Fills data cells) :=
  inferInstanceAs (Decidable (List.Forall₂ _ data cells))

section Cells

variable {data xs ys bytes : List UInt8} {cells p q : List (Option UInt8)}

@[simp]
theorem length_written (bytes : List UInt8) : (written bytes).length = bytes.length := List.length_map _ _

@[simp]
theorem written_append (xs ys : List UInt8) : written (xs ++ ys) = written xs ++ written ys := List.map_append _ _ _

theorem fills_written_iff : Fills data (written bytes) ↔ data = bytes := by
  simp only [Fills, written, List.forall₂_map_right_iff, Option.mem_def, Option.some.injEq, forall_eq',
    List.forall₂_eq_eq_eq]

theorem fills_written (bytes : List UInt8) : Fills bytes (written bytes) := fills_written_iff.2 rfl

/-- Unwritten cells are filled by any bytes of their number. -/
theorem fills_replicate_none {n : ℕ} : Fills data (List.replicate n none) ↔ data.length = n := by
  induction data generalizing n with
  | nil => cases n <;> simp [Fills]
  | cons b bs ih =>
    cases n with
    | zero => simp [Fills]
    | succ n => simpa [Fills, List.replicate_succ] using ih

/-- Fresh storage fills unwritten cells. -/
theorem fills_fresh (a : Allocator) (start n : ℕ) : Fills (Buffer.fresh a start n) (List.replicate n none) :=
  fills_replicate_none.2 (Buffer.length_fresh a start n)

namespace Fills

theorem length_eq (h : Fills data cells) : data.length = cells.length := List.Forall₂.length_eq h

theorem append (h : Fills xs p) (h' : Fills ys q) : Fills (xs ++ ys) (p ++ q) := List.rel_append h h'

/-- The bytes that fill the first of two runs of cells. -/
theorem take_left (h : Fills data (p ++ q)) : Fills (data.take p.length) p := List.forall₂_take_append _ _ _ h

/-- The bytes that fill the second of two runs of cells. -/
theorem drop_left (h : Fills data (p ++ q)) : Fills (data.drop p.length) q := List.forall₂_drop_append _ _ _ h

/-- Bytes that fill two runs of cells, one after the other, split where the first run ends. -/
theorem split (h : Fills data (p ++ q)) : ∃ xs ys, data = xs ++ ys ∧ Fills xs p ∧ Fills ys q :=
  ⟨_, _, (List.take_append_drop p.length data).symm, h.take_left, h.drop_left⟩

theorem drop (h : Fills data cells) (n : ℕ) : Fills (data.drop n) (cells.drop n) := List.forall₂_drop n h

theorem take (h : Fills data cells) (n : ℕ) : Fills (data.take n) (cells.take n) := List.forall₂_take n h

end Fills

/-- Bytes that fill cells beginning with written bytes begin with those bytes. -/
theorem fills_written_append_iff : Fills data (written bytes ++ q) ↔ ∃ ys, data = bytes ++ ys ∧ Fills ys q := by
  refine ⟨fun h => ?_, fun ⟨ys, hdata, hys⟩ => hdata ▸ (fills_written bytes).append hys⟩
  obtain ⟨xs, ys, rfl, hxs, hys⟩ := h.split
  exact ⟨ys, by rw [fills_written_iff.1 hxs], hys⟩

end Cells

end Osmium.Memory
