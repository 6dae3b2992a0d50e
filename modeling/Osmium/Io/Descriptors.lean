import Osmium.Io.GetParsedBlock
import Mathlib.Data.List.Perm.Subperm

/-!
# The table's descriptor

`PbfBlockIndexTable(filename)` opens the file with `open_for_reading` before it reads anything,
and only its destructor closes it, with `reliable_close(m_fd)`. The class overrides none of C++'s
rules for the lifetime of its objects, and two things follow from them.

A constructor that throws leaves no object, so no destructor runs, and an `int` member releases
nothing: every error of the scan leaves the descriptor the constructor opened open. And the class
declares no copy constructor, so the implicit one copies `m_fd`: the original and each of its
copies close the same descriptor, each in its own destructor.

Modelled from the spec: `open_for_reading` and `reliable_close` belong to `read_write.hpp`, which is
not among the sources; they are `open`, which returns the lowest-numbered descriptor not open, and
`close`.

## Main definitions

* `Descriptors`: the descriptors a process has open, and every `close` call it made.
* `TableObject`: a `PbfBlockIndexTable` object, its index with the file it reads, and `m_fd`.

## Main results

* `TableObject.construct_throw_keeps_descriptor_open`: whenever the scan throws, the constructor
  leaves a descriptor open that was not open before; and over the lifetimes of a constructed table
  and `c` copies of it, its descriptor is closed `c + 1` times.
-/

namespace Osmium.Io

/-- The descriptors of a process: those open, and the descriptor of every `close` call made so
far, in order. -/
structure Descriptors where
  /-- The open descriptors. -/
  live : List ℕ
  /-- The descriptor of each `close` call so far. -/
  closeCalls : List ℕ
  deriving DecidableEq, Repr

/-- The lowest-numbered descriptor not open, which `open` returns. -/
def lowestFree (live : List ℕ) : ℕ :=
  ((List.range (live.length + 1)).find? (· ∉ live)).getD live.length

/-- The descriptor `open` returns was not open: `live` cannot hold all of the `live.length + 1`
numbers up to its length. -/
theorem lowestFree_not_mem (live : List ℕ) : lowestFree live ∉ live := by
  unfold lowestFree
  cases h : (List.range (live.length + 1)).find? (· ∉ live) with
  | some n => simpa using List.find?_some h
  | none =>
    have hsub : List.range (live.length + 1) ⊆ live := fun n hn => by
      simpa using List.find?_eq_none.1 h n hn
    have hle := ((List.nodup_range _).subperm hsub).length_le
    rw [List.length_range] at hle
    omega

/-- `osmium::io::detail::open_for_reading(filename)` on a file that exists: `open` returns the
lowest-numbered descriptor not open. -/
def openForReading (d : Descriptors) : ℕ × Descriptors :=
  (lowestFree d.live, { d with live := lowestFree d.live :: d.live })

/-- `osmium::io::detail::reliable_close(fd)`: `close(fd)`, which releases the descriptor if it is
open. -/
def reliableClose (d : Descriptors) (fd : ℕ) : Descriptors :=
  ⟨d.live.erase fd, d.closeCalls ++ [fd]⟩

/-- A `PbfBlockIndexTable` object: `m_block_starts` with the file it reads, and `m_fd`. -/
structure TableObject where
  /-- The index, and the file `m_fd` refers to. -/
  table : PbfBlockIndexTable
  /-- `m_fd`. -/
  fd : ℕ

section Lifetime

variable (split : ℕ → ℕ → ℕ) (signedChar : Bool) (pbfFields : List UInt8 → Option (List PbfField))

/-- `PbfBlockIndexTable(filename)` on a file with content `F`: open the file, then scan it. When the
scan throws, the exception leaves the constructor with the descriptor still open. -/
def TableObject.construct (d : Descriptors) (F : List UInt8) : Except String TableObject × Descriptors :=
  let (fd, d₁) := openForReading d
  match PbfBlockIndexTable.construct split signedChar pbfFields F with
  | .ok t => (.ok ⟨t, fd⟩, d₁)
  | .error e => (.error e, d₁)

/-- `~PbfBlockIndexTable()`: `reliable_close(m_fd)`. -/
def TableObject.destroy (o : TableObject) (d : Descriptors) : Descriptors :=
  reliableClose d o.fd

/-- The implicitly declared copy constructor: a copy of each member, `m_fd` included. -/
def TableObject.copy (o : TableObject) : TableObject :=
  ⟨o.table, o.fd⟩

/-- The end of the lifetimes of some objects: the destructor of each, in order. -/
def TableObject.destroyAll (objects : List TableObject) (d : Descriptors) : Descriptors :=
  objects.foldl (fun d o => o.destroy d) d

/-- Each destructor closes its object's `m_fd`. -/
theorem TableObject.destroyAll_closeCalls (objects : List TableObject) (d : Descriptors) :
    (destroyAll objects d).closeCalls = d.closeCalls ++ objects.map TableObject.fd := by
  induction objects generalizing d with
  | nil => exact (List.append_nil _).symm
  | cons o os ih =>
    rw [destroyAll, List.foldl_cons, ← destroyAll, ih, List.map_cons]
    simp only [destroy, reliableClose, List.append_assoc, List.singleton_append]

/-- Whenever the scan of the file throws, the exception leaves the constructor and the descriptor
it opened, which was not open before, stays open; and over the lifetimes of a constructed table
and `c` copies of it, its descriptor is closed `c + 1` times, once by each destructor. -/
theorem TableObject.construct_throw_keeps_descriptor_open (d : Descriptors) (F : List UInt8) :
    (∀ e, PbfBlockIndexTable.construct split signedChar pbfFields F = .error e →
      (construct split signedChar pbfFields d F).1 = .error e ∧ lowestFree d.live ∉ d.live ∧
        (construct split signedChar pbfFields d F).2.live = lowestFree d.live :: d.live) ∧
    (∀ o d₁, construct split signedChar pbfFields d F = (.ok o, d₁) → ∀ c : ℕ,
      (destroyAll (o :: List.replicate c o.copy) d₁).closeCalls.count o.fd = d.closeCalls.count o.fd + (c + 1)) := by
  constructor
  · intro e he
    refine ⟨?_, lowestFree_not_mem d.live, ?_⟩ <;> simp only [construct, openForReading, he]
  · intro o d₁ hc c
    simp only [construct, openForReading] at hc
    split at hc
    · cases hc
      rw [destroyAll_closeCalls]
      simp only [List.map_cons, List.map_replicate, copy, List.count_append, List.count_cons_self,
        List.count_replicate_self]
    · cases hc

/-- With descriptors 0, 1 and 2 open, the empty file makes the constructor throw at the first length
and leaves descriptor 3 open; the sample file constructs a table on descriptor 3, and the table and
one copy of it close descriptor 3 twice. -/
theorem TableObject.construct_throw_keeps_descriptor_open_sample :
    (∃ e, PbfBlockIndexTable.construct (fun _ _ => 1) true protobufFields [] = .error e ∧
      (construct (fun _ _ => 1) true protobufFields ⟨[2, 1, 0], []⟩ []).2.live = [3, 2, 1, 0]) ∧
    ∃ o d₁, construct (fun _ _ => 1) true protobufFields ⟨[2, 1, 0], []⟩ samplePbfFile = (.ok o, d₁) ∧
      o.fd = 3 ∧ (destroyAll [o, o.copy] d₁).closeCalls.count o.fd = 2 := by
  have h := construct_throw_keeps_descriptor_open (fun _ _ => 1) true protobufFields ⟨[2, 1, 0], []⟩
  have hempty : ∃ e, PbfBlockIndexTable.construct (fun _ _ => 1) true protobufFields [] = .error e := by
    cases hc : PbfBlockIndexTable.construct (fun _ _ => 1) true protobufFields [] with
    | error e => exact ⟨e, rfl⟩
    | ok t =>
      obtain ⟨o₁, t₁, o', hd, -, -⟩ := (construct_eq_ok_iff_scan _ _ _ [] t).1 hc
      obtain ⟨_, hfit, -⟩ := (digestAndSkipBlock_eq_ok_iff _ _ _).1 hd
      exact absurd hfit (by decide)
  obtain ⟨e, he⟩ := hempty
  have hsample : construct (fun _ _ => 1) true protobufFields ⟨[2, 1, 0], []⟩ samplePbfFile =
      (.ok ⟨sampleTable, 3⟩, ⟨[3, 2, 1, 0], []⟩) := by
    simp only [construct, openForReading, construct_samplePbfFile]
    rfl
  exact ⟨⟨e, he, ((h []).1 e he).2.2⟩, _, _, hsample, rfl, (h samplePbfFile).2 _ _ hsample 1⟩

end Lifetime

end Osmium.Io
