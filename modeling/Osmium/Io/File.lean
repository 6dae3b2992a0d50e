import Osmium.Osm.Types

/-!
# File descriptors and `read_exactly`

The file primitives the PBF random-access table is built on. A descriptor is the content of a
file that does not change while it is read, together with the descriptor's file position.
`reliable_read` is the system's `read`: it hands over between one byte and the number asked
for, and zero only at the end of the file. How many it hands over is the system's choice, so
it is a parameter `split` of the whole development, and every result below holds for every
`split`.

* `readExactly_eq`: `read_exactly(fd, buffer, size)` succeeds exactly when `size` bytes remain
  after the file position; the bytes it returns and the position it leaves are those of the file
  content, however the reads were split.
* `readExactly_true_iff_remaining`: the same law read off the flag, the bytes and the position that
  `read_exactly` returns.
-/

namespace Osmium.Io

/-- A descriptor opened for reading: the content of the file and the descriptor's position. -/
structure FileDescriptor where
  /-- The bytes of the file, which stay the same while the table reads it. -/
  content : List UInt8
  /-- The file position, which `lseek` may put past the end of the file. -/
  position : ℕ
  deriving DecidableEq, Repr

/-- `osmium::util::file_seek(fd, offset)`: move the file position. -/
def fileSeek (fd : FileDescriptor) (offset : ℕ) : FileDescriptor :=
  { fd with position := offset }

@[simp]
theorem fileSeek_content (fd : FileDescriptor) (offset : ℕ) :
    (fileSeek fd offset).content = fd.content := rfl

@[simp]
theorem fileSeek_position (fd : FileDescriptor) (offset : ℕ) :
    (fileSeek fd offset).position = offset := rfl

section ReadExactly

variable (split : ℕ → ℕ → ℕ)

/-- The number of bytes one `reliable_read(fd, buffer, count)` hands over: what the system
grants at this position, clipped to at least one and at most `count`, and to what is left
before the end of the file. -/
def readSize (fd : FileDescriptor) (count : ℕ) : ℕ :=
  min (max 1 (split fd.position count)) (min count (fd.content.length - fd.position))

theorem readSize_le (fd : FileDescriptor) (count : ℕ) :
    readSize split fd count ≤ count ∧
      readSize split fd count ≤ fd.content.length - fd.position := by
  unfold readSize
  omega

theorem readSize_eq_zero_iff (fd : FileDescriptor) {count : ℕ} (hcount : count ≠ 0) :
    readSize split fd count = 0 ↔ fd.content.length ≤ fd.position := by
  unfold readSize
  omega

/-- `read_exactly(fd, buffer, size)`: keep reading into `buffer + (size - to_read)` until
`to_read` bytes have arrived, and give up when a read returns zero. Returns whether all bytes
arrived, the bytes that did, and the descriptor afterwards. -/
def readExactly (fd : FileDescriptor) (size : ℕ) : Bool × List UInt8 × FileDescriptor :=
  go fd size []
where
  /-- The `while (to_read > 0)` loop, with the bytes read so far in `acc`. -/
  go (fd : FileDescriptor) (toRead : ℕ) (acc : List UInt8) :
      Bool × List UInt8 × FileDescriptor :=
    if toRead = 0 then (true, acc, fd)
    else if readSize split fd toRead = 0 then (false, acc, fd)
    else
      go ⟨fd.content, fd.position + readSize split fd toRead⟩
        (toRead - readSize split fd toRead)
        (acc ++ (fd.content.drop fd.position).take (readSize split fd toRead))
  termination_by toRead
  decreasing_by omega

/-- The loop of `read_exactly`, whatever the split of the reads: it succeeds exactly when
`toRead` bytes remain after the position, and it appends to `acc` the bytes of the file from
the position on. -/
theorem readExactly_go_eq (fd : FileDescriptor) (toRead : ℕ) (acc : List UInt8) :
    readExactly.go split fd toRead acc =
      if toRead ≤ fd.content.length - fd.position then
        (true, acc ++ (fd.content.drop fd.position).take toRead,
          ⟨fd.content, fd.position + toRead⟩)
      else
        (false, acc ++ fd.content.drop fd.position,
          ⟨fd.content, max fd.position fd.content.length⟩) := by
  induction fd, toRead, acc using readExactly.go.induct split with
  | case1 fd acc =>
    simp [readExactly.go]
  | case2 fd toRead acc hne hzero =>
    have hend := (readSize_eq_zero_iff split fd hne).1 hzero
    rw [readExactly.go, if_neg hne, if_pos hzero, if_neg (by omega),
      List.drop_eq_nil_of_le hend, max_eq_left hend]
    simp
  | case3 fd toRead acc hne hzero ih =>
    rw [readExactly.go, if_neg hne, if_neg hzero, ih]
    obtain ⟨hle, hleft⟩ := readSize_le split fd toRead
    generalize readSize split fd toRead = n at *
    dsimp only
    have hdrop : fd.content.drop (fd.position + n) = (fd.content.drop fd.position).drop n := by
      rw [List.drop_drop, Nat.add_comm]
    rw [hdrop]
    by_cases hfit : toRead ≤ fd.content.length - fd.position
    · rw [if_pos (by omega), if_pos hfit, List.append_assoc, ← List.take_add, Nat.add_sub_cancel' hle,
        Nat.add_assoc, Nat.add_sub_cancel' hle]
    · rw [if_neg (by omega), if_neg hfit, List.append_assoc, List.take_append_drop, max_eq_right (by omega),
        max_eq_right (by omega)]

/-- `read_exactly` as a function of the file content: `size` bytes from the position when that
many remain, and otherwise everything up to the end of the file and a `false` flag. -/
theorem readExactly_eq (fd : FileDescriptor) (size : ℕ) :
    readExactly split fd size =
      if size ≤ fd.content.length - fd.position then
        (true, (fd.content.drop fd.position).take size, ⟨fd.content, fd.position + size⟩)
      else
        (false, fd.content.drop fd.position, ⟨fd.content, max fd.position fd.content.length⟩) := by
  simpa using readExactly_go_eq split fd size []

/-- `read_exactly(fd, buffer, n)`, however the reads are split: it returns `true` exactly when at
least `n` bytes remain after the file position, and then the buffer holds the first `n` of them and
the position has moved by `n`; otherwise it returns `false` with every remaining byte consumed.
Within one call the reads happen at strictly increasing positions, so `split`, a function of the
position and the count, chooses every sequence of read sizes. -/
theorem readExactly_true_iff_remaining (fd : FileDescriptor) (n : ℕ) :
    ((readExactly split fd n).1 = true ↔ n ≤ (fd.content.drop fd.position).length) ∧
      ((readExactly split fd n).1 = true →
        (readExactly split fd n).2.1 = (fd.content.drop fd.position).take n ∧
          (readExactly split fd n).2.2 = ⟨fd.content, fd.position + n⟩) ∧
      ((readExactly split fd n).1 = false →
        (readExactly split fd n).2.1 = fd.content.drop fd.position ∧
          (readExactly split fd n).2.2 = ⟨fd.content, max fd.position fd.content.length⟩) := by
  rw [readExactly_eq, List.length_drop]
  by_cases hfit : n ≤ fd.content.length - fd.position
  · rw [if_pos hfit]
    exact ⟨iff_of_true rfl hfit, fun _ => ⟨rfl, rfl⟩, fun h => Bool.noConfusion h⟩
  · rw [if_neg hfit]
    exact ⟨iff_of_false Bool.false_ne_true hfit, fun h => Bool.noConfusion h, fun _ => ⟨rfl, rfl⟩⟩

/-- Reads of one byte each, three bytes from position 1 of a five-byte file. -/
theorem readExactly_true_iff_remaining_bytewise :
    (readExactly (fun _ _ => 1) ⟨[1, 2, 3, 4, 5], 1⟩ 3).1 = true ∧
      (readExactly (fun _ _ => 1) ⟨[1, 2, 3, 4, 5], 1⟩ 3).2.1 = [2, 3, 4] ∧
      (readExactly (fun _ _ => 1) ⟨[1, 2, 3, 4, 5], 1⟩ 3).2.2.position = 4 :=
  have h := readExactly_true_iff_remaining (fun _ _ => 1) ⟨[1, 2, 3, 4, 5], 1⟩ 3
  have htrue := h.1.2 (by decide)
  ⟨htrue, (h.2.1 htrue).1, by rw [(h.2.1 htrue).2]⟩

end ReadExactly

end Osmium.Io
