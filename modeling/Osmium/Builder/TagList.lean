import Osmium.Builder.Builder

/-!
# Tag lists

`TagListBuilder` appends a `TagList` item: after its header, each tag as its key and its value,
each followed by a zero byte. Its `add_tag` overloads differ in how they receive the strings and in
whether they check them: the ones taking zero-terminated strings, a pointer with a length, or
`std::string`s throw `std::length_error` for a key or value longer than `max_osm_string_length`
before writing anything; the one taking an `osmium::Tag` checks nothing. The overloads taking a
pair call the string overload of the pair's type.

The overloads taking a pointer with a length, or `std::string`s, copy their bytes as they are, zero
bytes included, so reading the content back as zero-terminated strings gives the tags back only when
no key or value holds a zero byte.

* `runAddTags_content`: a sequence of admitted `add_tag` calls, through any mix of overloads, leaves
  the keys and values with their terminators as the item's content, and the item's size counts them,
  modulo `2 ^ 32`.
* `readTagList_tagListContent`: without zero bytes in keys and values, that content reads back as the
  tags added, in order.
-/

namespace Osmium

open Memory

/-- `osmium::builder::TagListBuilder`. -/
structure TagListBuilder extends Builder

/-- The tag an `osmium::Tag` holds: its key and its value, both zero-terminated in the item. -/
structure Tag where
  /-- `Tag::key()`. -/
  key : CString
  /-- `Tag::value()`. -/
  value : CString

/-- The length checks of the checking `add_tag` overloads, made before anything is written. -/
def checkTagLengths (keyLength valueLength : ℕ) : Except Failure Unit :=
  if keyLength > maxOsmStringLength then .error (.lengthError "OSM tag key is too long")
  else if valueLength > maxOsmStringLength then .error (.lengthError "OSM tag value is too long")
  else .ok ()

section Builder

variable (layout : Layout) (a : Allocator)

namespace TagListBuilder

/-- `TagListBuilder(buffer, parent)`: `Builder(buffer, parent, sizeof(TagList))`, then
`new (&item()) TagList{}`. -/
def make (buf : Buffer) (parent : Option Builder) : TagListBuilder × Buffer :=
  let (b, buf₁) := Builder.make a buf parent (layout.sizeOf .tagList)
  (⟨b⟩, buf₁.write b.itemOffset (layout.image .tagList))

/-- `~TagListBuilder()`: `add_padding()`. -/
def destroy (tb : TagListBuilder) (buf : Buffer) : Buffer :=
  tb.addPadding a buf false

/-- The body the `add_tag` overloads share: unless `check` fails, `add_size(append…(key))` and then
`add_size(append…(value))`, with the overload's way of appending. -/
def addTagWith (check : Except Failure Unit) (appendKey appendValue : Buffer → ℕ × Buffer)
    (tb : TagListBuilder) (buf : Buffer) : Except Failure Unit × Buffer :=
  match check with
  | .error e => (.error e, buf)
  | .ok () =>
    let (keySize, buf₁) := appendKey buf
    let buf₂ := tb.addSize buf₁ keySize
    let (valueSize, buf₃) := appendValue buf₂
    (.ok (), tb.addSize buf₃ valueSize)

/-- `add_tag(const char* key, const char* value)`: checks `std::strlen` of both, then
`add_size(append(key))` and `add_size(append(value))`. -/
def addTag (tb : TagListBuilder) (buf : Buffer) (key value : CString) : Except Failure Unit × Buffer :=
  addTagWith (checkTagLengths key.bytes.length value.bytes.length)
    (fun buf => appendCString a buf key) (fun buf => appendCString a buf value) tb buf

/-- `add_tag(key, key_length, value, value_length)`: checks both lengths, then
`add_size(append_with_zero(key, key_length))` and the same for the value. -/
def addTagWithLength (tb : TagListBuilder) (buf : Buffer) (key value : List UInt8) :
    Except Failure Unit × Buffer :=
  addTagWith (checkTagLengths key.length value.length)
    (fun buf => appendWithZero a buf key) (fun buf => appendWithZero a buf value) tb buf

/-- `add_tag(const std::string& key, const std::string& value)`: checks both sizes, then
`add_size(append(key.data(), key.size() + 1))`, which copies the string's terminating zero too, and
the same for the value. -/
def addTagString (tb : TagListBuilder) (buf : Buffer) (key value : List UInt8) :
    Except Failure Unit × Buffer :=
  addTagWith (checkTagLengths key.length value.length)
    (fun buf => append a buf (key ++ [0])) (fun buf => append a buf (value ++ [0])) tb buf

/-- `add_tag(const osmium::Tag& tag)`: no check; `add_size(append(tag.key()))` and
`add_size(append(tag.value()))`. -/
def addTagFromTag (tb : TagListBuilder) (buf : Buffer) (tag : Tag) : Except Failure Unit × Buffer :=
  addTagWith (.ok ()) (fun buf => appendCString a buf tag.key) (fun buf => appendCString a buf tag.value)
    tb buf

end TagListBuilder

/-- One call of an `add_tag` overload with its arguments; the overloads taking a pair are calls of
the string overload of the pair's type. -/
inductive AddTagCall
  | cStrings (key value : CString)
  | withLength (key value : List UInt8)
  | strings (key value : List UInt8)
  | tag (tag : Tag)

namespace AddTagCall

/-- The call on a tag list builder. -/
def run (tb : TagListBuilder) (buf : Buffer) : AddTagCall → Except Failure Unit × Buffer
  | cStrings key value => tb.addTag a buf key value
  | withLength key value => tb.addTagWithLength a buf key value
  | strings key value => tb.addTagString a buf key value
  | tag t => tb.addTagFromTag a buf t

/-- The key the call passes, as bytes. -/
def key : AddTagCall → List UInt8
  | cStrings key _ => key.bytes
  | withLength key _ | strings key _ => key
  | tag t => t.key.bytes

/-- The value the call passes, as bytes. -/
def value : AddTagCall → List UInt8
  | cStrings _ value => value.bytes
  | withLength _ value | strings _ value => value
  | tag t => t.value.bytes

/-- The call passes its overload's checks. -/
def admitted : AddTagCall → Bool
  | tag _ => true
  | c => c.key.length ≤ maxOsmStringLength ∧ c.value.length ≤ maxOsmStringLength

end AddTagCall

/-- A sequence of `add_tag` calls on one builder, which stops at the first that throws. -/
def runAddTags (tb : TagListBuilder) : Buffer → List AddTagCall → Except Failure Unit × Buffer
  | buf, [] => (.ok (), buf)
  | buf, c :: cs =>
    match c.run a tb buf with
    | (.ok (), buf') => runAddTags tb buf' cs
    | (.error e, buf') => (.error e, buf')

end Builder

/-- What a sequence of tags leaves after a tag list's header: each key and value with its
terminating zero. -/
def tagListContent (calls : List AddTagCall) : List UInt8 :=
  calls.flatMap fun c => c.key ++ [0] ++ c.value ++ [0]

/-- Pairs of consecutive elements. -/
def pairUp {α : Type} : List α → List (α × α)
  | x :: y :: rest => (x, y) :: pairUp rest
  | _ => []

/-- A tag list's content read as consecutive zero-terminated strings, taken two at a time. -/
def readTagList (content : List UInt8) : List (List UInt8 × List UInt8) :=
  pairUp (content.splitOn 0).dropLast

/-! ### Content of a tag list -/

section Content

variable {a : Allocator} {tb : TagListBuilder} {buf : Buffer} {s : ℕ} {rest : List UInt8}

theorem checkTagLengths_of_le {keyLength valueLength : ℕ} (hkey : keyLength ≤ maxOsmStringLength)
    (hvalue : valueLength ≤ maxOsmStringLength) : checkTagLengths keyLength valueLength = .ok () := by
  simp [checkTagLengths, Nat.not_lt.2 hkey, Nat.not_lt.2 hvalue]

theorem tagListContent_cons (c : AddTagCall) (cs : List AddTagCall) :
    tagListContent (c :: cs) = (c.key ++ [0]) ++ (c.value ++ [0]) ++ tagListContent cs := by
  simp [tagListContent]

/-- The body of the `add_tag` overloads, when the check passes and both strings are appended with
their terminators: the item's content grows by them and its size by their length. -/
theorem addTagWith_ok (htb : tb.ParentsBefore)
    (h : buf.data.drop tb.itemOffset = itemHeader s .tagList ++ rest) (key value : List UInt8) :
    let r := TagListBuilder.addTagWith (.ok ()) (fun buf => append a buf (key ++ [0]))
      (fun buf => append a buf (value ++ [0])) tb buf
    r.1 = .ok () ∧
      r.2.data.drop tb.itemOffset = itemHeader (s + (key ++ [0]).length + (value ++ [0]).length) .tagList ++
        (rest ++ (key ++ [0]) ++ (value ++ [0])) :=
  ⟨rfl, drop_addSize_append a htb (drop_addSize_append a htb h (key ++ [0])) (value ++ [0])⟩

/-- Every overload, on a call that passes its checks, is the shared body appending the key and the
value with their terminators. -/
theorem AddTagCall.run_of_admitted {c : AddTagCall} (hc : c.admitted) (tb : TagListBuilder) (buf : Buffer) :
    c.run a tb buf = TagListBuilder.addTagWith (.ok ()) (fun buf => append a buf (c.key ++ [0]))
      (fun buf => append a buf (c.value ++ [0])) tb buf := by
  cases c with
  | cStrings key value =>
    simp only [admitted, AddTagCall.key, AddTagCall.value, decide_eq_true_eq] at hc
    simp only [run, TagListBuilder.addTag, checkTagLengths_of_le hc.1 hc.2]; rfl
  | withLength key value =>
    simp only [admitted, AddTagCall.key, AddTagCall.value, decide_eq_true_eq] at hc
    simp only [run, TagListBuilder.addTagWithLength, checkTagLengths_of_le hc.1 hc.2,
      appendWithZero_eq_append]; rfl
  | strings key value =>
    simp only [admitted, AddTagCall.key, AddTagCall.value, decide_eq_true_eq] at hc
    simp only [run, TagListBuilder.addTagString, checkTagLengths_of_le hc.1 hc.2]; rfl
  | tag t => rfl

/-- A call that fails its overload's checks throws `std::length_error` and writes nothing. -/
theorem AddTagCall.run_of_not_admitted {c : AddTagCall} (hc : c.admitted = false) (tb : TagListBuilder)
    (buf : Buffer) : ∃ msg, c.run a tb buf = (.error (.lengthError msg), buf) := by
  have hcheck : ∀ k v, ¬(k ≤ maxOsmStringLength ∧ v ≤ maxOsmStringLength) →
      ∃ msg, checkTagLengths k v = .error (.lengthError msg) :=
    fun k v h => by unfold checkTagLengths; split_ifs <;> first | exact ⟨_, rfl⟩ | omega
  cases c with
  | tag t => cases hc
  | cStrings key value | withLength key value | strings key value =>
    simp only [admitted, AddTagCall.key, AddTagCall.value, decide_eq_false_iff_not] at hc
    obtain ⟨e, he⟩ := hcheck _ _ hc
    exact ⟨e, by simp only [run, TagListBuilder.addTag, TagListBuilder.addTagWithLength, TagListBuilder.addTagString,
      TagListBuilder.addTagWith, he]⟩

/-- A sequence of admitted `add_tag` calls succeeds, appends the tags with their terminators to the
item's content and grows its size by their length. -/
theorem runAddTags_eq (htb : tb.ParentsBefore) (h : buf.data.drop tb.itemOffset = itemHeader s .tagList ++ rest)
    (calls : List AddTagCall) (hcalls : ∀ c ∈ calls, c.admitted) :
    (runAddTags a tb buf calls).1 = .ok () ∧
      (runAddTags a tb buf calls).2.data.drop tb.itemOffset =
        itemHeader (s + (tagListContent calls).length) .tagList ++ (rest ++ tagListContent calls) := by
  induction calls generalizing buf s rest with
  | nil => simpa [runAddTags, tagListContent] using h
  | cons c cs ih =>
    have hrun := AddTagCall.run_of_admitted (a := a) (hcalls c (List.mem_cons_self _ _)) tb buf
    obtain ⟨hok, hdrop⟩ := addTagWith_ok (a := a) htb h c.key c.value
    rw [← hrun] at hok hdrop
    obtain ⟨hok', hdrop'⟩ := ih hdrop (fun c hc => hcalls c (List.mem_cons_of_mem _ hc))
    have hstep : runAddTags a tb buf (c :: cs) = runAddTags a tb (c.run a tb buf).2 cs := by
      rw [runAddTags]
      rcases hr : c.run a tb buf with ⟨_ | ⟨⟩, buf'⟩
      · rw [hr] at hok; cases hok
      · rfl
    rw [hstep, hdrop', tagListContent_cons]
    simp only [List.length_append, List.append_assoc, Nat.add_assoc, and_true]
    exact hok'

/-- A sequence of `add_tag` calls, whether or not one throws, leaves the content of the calls before
the first that fails its checks: a failing overload throws before it writes. -/
theorem runAddTags_takeWhile (htb : tb.ParentsBefore) (h : buf.data.drop tb.itemOffset = itemHeader s .tagList ++ rest)
    (calls : List AddTagCall) :
    (runAddTags a tb buf calls).2.data.drop tb.itemOffset =
      itemHeader (s + (tagListContent (calls.takeWhile (·.admitted))).length) .tagList ++
        (rest ++ tagListContent (calls.takeWhile (·.admitted))) := by
  induction calls generalizing buf s rest with
  | nil => simpa [runAddTags, tagListContent] using h
  | cons c cs ih =>
    cases hc : c.admitted
    · -- the call throws and leaves the buffer
      obtain ⟨e, he⟩ := c.run_of_not_admitted (a := a) hc tb buf
      simpa [runAddTags, he, List.takeWhile_cons, hc, tagListContent] using h
    · -- the call appends its key and value, and the rest go on from there
      obtain ⟨hok, hdrop⟩ := addTagWith_ok (a := a) htb h c.key c.value
      rw [← AddTagCall.run_of_admitted hc] at hok hdrop
      rcases hr : c.run a tb buf with ⟨r, buf'⟩
      rw [hr] at hok hdrop; dsimp only at hok hdrop; subst hok
      simp only [runAddTags, hr, List.takeWhile_cons, hc, if_true, ih hdrop, tagListContent_cons]
      simp only [List.length_append, List.append_assoc, List.length_singleton, Nat.add_assoc]

/-- A sequence of `add_tag` calls with one that fails its checks throws `std::length_error`. -/
theorem runAddTags_of_not_admitted {calls : List AddTagCall} (h : ∃ c ∈ calls, c.admitted = false) (buf : Buffer) :
    ∃ msg, (runAddTags a tb buf calls).1 = .error (.lengthError msg) := by
  induction calls generalizing buf with
  | nil => obtain ⟨c, hc, -⟩ := h; cases hc
  | cons c cs ih =>
    cases hadm : c.admitted
    · obtain ⟨e, he⟩ := c.run_of_not_admitted (a := a) hadm tb buf
      exact ⟨e, by simp only [runAddTags, he]⟩
    · obtain ⟨c', hc', hbad⟩ := h
      have hc'' : c' ∈ cs := (List.mem_cons.1 hc').resolve_left fun h => by rw [h, hadm] at hbad; cases hbad
      have hok : (c.run a tb buf).1 = .ok () := by rw [AddTagCall.run_of_admitted hadm]; rfl
      rcases hr : c.run a tb buf with ⟨r, buf'⟩
      rw [hr] at hok; subst hok
      simp only [runAddTags, hr]
      exact ih ⟨c', hc'', hbad⟩ buf'

/-- A new tag list is its fixed part, whose size is `sizeof(TagList)`. -/
theorem TagListBuilder.drop_make {buf : Buffer} {parent : Option Builder}
    (hparent : ∀ p ∈ parent, p.ItemsBefore buf.data.length) (layout : Layout) :
    (TagListBuilder.make layout a buf parent).2.data.drop buf.data.length = layout.image .tagList :=
  drop_make_write a hparent (layout.length_image _)

/-- A zero-terminated string ends at its terminator. -/
theorem splitOn_append_zero {bytes : List UInt8} (h : (0 : UInt8) ∉ bytes) (rest : List UInt8) :
    (bytes ++ 0 :: rest).splitOn 0 = bytes :: rest.splitOn 0 :=
  List.splitOnP_first _ _ (fun x hx hx0 => h (by simpa using (beq_iff_eq.1 hx0) ▸ hx)) _ rfl _

/-- Keys and values without zero bytes read back from a tag list's content as the tags, in order. -/
theorem readTagList_tagListContent (calls : List AddTagCall) (h : ∀ c ∈ calls, 0 ∉ c.key ∧ 0 ∉ c.value) :
    readTagList (tagListContent calls) = calls.map fun c => (c.key, c.value) := by
  have hsplit : ∀ calls : List AddTagCall, (∀ c ∈ calls, 0 ∉ c.key ∧ 0 ∉ c.value) →
      ((tagListContent calls).splitOn 0).dropLast = calls.flatMap fun c => [c.key, c.value] := by
    intro calls h
    induction calls with
    | nil => rfl
    | cons c cs ih =>
      obtain ⟨hkey, hvalue⟩ := h c (List.mem_cons_self _ _)
      simp only [tagListContent_cons, List.append_assoc, List.singleton_append, List.cons_append,
        List.nil_append]
      have hne : (tagListContent cs).splitOn 0 ≠ [] := List.splitOnP_ne_nil _ _
      rw [splitOn_append_zero hkey, splitOn_append_zero hvalue, List.dropLast_cons₂,
        List.dropLast_cons_of_ne_nil hne, ih (fun c hc => h c (List.mem_cons_of_mem _ hc))]
      rfl
  rw [readTagList, hsplit calls h]
  clear h hsplit
  induction calls with
  | nil => rfl
  | cons c cs ih => rw [List.flatMap_cons, List.map_cons, ← ih]; rfl

end Content

/-! ### Tag lists built by runs of calls -/

section BuiltTagLists

variable (layout : Layout) (a : Allocator)

/-- A tag list built by any sequence of `add_tag` calls that pass their checks, through any mix of
overloads: every call succeeds; the item's stored size is `sizeof(TagList)` plus the length of the
keys and values with their terminators, modulo `2 ^ 32`; what follows the fixed part is exactly
those keys and values with their terminators, in call order; and when no key or value holds a zero
byte, that content read as zero-terminated strings two at a time is the tags added. -/
theorem runAddTags_content (buf : Buffer) (parent : Option Builder)
    (hparent : ∀ p ∈ parent, p.ItemsBefore buf.data.length) (calls : List AddTagCall)
    (hcalls : ∀ c ∈ calls, c.admitted) :
    let made := TagListBuilder.make layout a buf parent
    let run := runAddTags a made.1 made.2 calls
    run.1 = .ok () ∧
      byteSize run.2.data buf.data.length =
        (layout.sizeOf .tagList + (tagListContent calls).length) % 2 ^ 32 ∧
      run.2.data.drop (buf.data.length + layout.sizeOf .tagList) = tagListContent calls ∧
      ((∀ c ∈ calls, 0 ∉ c.key ∧ 0 ∉ c.value) →
        readTagList (tagListContent calls) = calls.map fun c => (c.key, c.value)) := by
  have hsize := layout.itemHeaderSize_le .tagList
  let made := TagListBuilder.make layout a buf parent
  obtain ⟨hok, hdrop⟩ := @runAddTags_eq a made.1 made.2 _ _ (parentsBefore_make a hparent (layout.sizeOf .tagList))
    (TagListBuilder.drop_make hparent layout) calls hcalls
  replace hdrop : (runAddTags a made.1 made.2 calls).2.data.drop buf.data.length = _ := hdrop
  refine ⟨hok, ?_, ?_, readTagList_tagListContent calls⟩
  · rw [byteSize_eq_drop, hdrop, byteSize_itemHeader_append]
  · rw [← List.drop_drop, hdrop, ← List.append_assoc,
      List.drop_left' (by simp only [List.length_append, length_itemHeader, List.length_replicate]; omega)]

/-- The tag `highway=primary`, passed as two zero-terminated strings. -/
def highwayPrimary : AddTagCall :=
  .cStrings ⟨[0x68, 0x69, 0x67, 0x68, 0x77, 0x61, 0x79], by decide⟩
    ⟨[0x70, 0x72, 0x69, 0x6d, 0x61, 0x72, 0x79], by decide⟩

/-- The tag `oneway=yes`, passed as two zero-terminated strings. -/
def onewayYes : AddTagCall :=
  .cStrings ⟨[0x6f, 0x6e, 0x65, 0x77, 0x61, 0x79], by decide⟩ ⟨[0x79, 0x65, 0x73], by decide⟩

/-- `runAddTags_content` for the tags `highway=primary` and `oneway=yes`, added in that order, in a
top-level tag list on an empty buffer. -/
theorem runAddTags_content_highway :
    (∀ p ∈ (none : Option Builder), p.ItemsBefore 0) ∧ (∀ c ∈ [highwayPrimary, onewayYes], c.admitted) ∧
      (let made := TagListBuilder.make Layout.amd64 Allocator.sample ⟨[], 64, 0⟩ none
       let run := runAddTags Allocator.sample made.1 made.2 [highwayPrimary, onewayYes]
       run.1 = .ok () ∧
        byteSize run.2.data 0 =
          (Layout.amd64.sizeOf .tagList + (tagListContent [highwayPrimary, onewayYes]).length) % 2 ^ 32 ∧
        run.2.data.drop (0 + Layout.amd64.sizeOf .tagList) = tagListContent [highwayPrimary, onewayYes] ∧
        ((∀ c ∈ [highwayPrimary, onewayYes], 0 ∉ c.key ∧ 0 ∉ c.value) →
          readTagList (tagListContent [highwayPrimary, onewayYes]) =
            [highwayPrimary, onewayYes].map fun c => (c.key, c.value))) :=
  And.intro (fun _ h => nomatch h) <| And.intro (by decide) <|
    runAddTags_content Layout.amd64 Allocator.sample ⟨[], 64, 0⟩ none (fun _ h => nomatch h)
      [highwayPrimary, onewayYes] (by decide)

/-- A key with a zero byte inside, passed with its length: the call passes its checks and succeeds,
and the tag list's content is the key and the value with their terminators, but read as
zero-terminated strings two at a time it gives the tag `a=b`, not the tag added. -/
theorem runAddTags_zero_in_key :
    let calls := [AddTagCall.withLength [0x61, 0, 0x62] [0x63]]
    let made := TagListBuilder.make Layout.amd64 Allocator.sample ⟨[], 64, 0⟩ none
    let run := runAddTags Allocator.sample made.1 made.2 calls
    (∀ c ∈ calls, c.admitted) ∧ run.1 = .ok () ∧
      run.2.data.drop (Layout.amd64.sizeOf .tagList) = [0x61, 0, 0x62, 0, 0x63, 0] ∧
      readTagList (run.2.data.drop (Layout.amd64.sizeOf .tagList)) = [([0x61], [0x62])] ∧
      readTagList (run.2.data.drop (Layout.amd64.sizeOf .tagList)) ≠ calls.map fun c => (c.key, c.value) := by
  intro calls made run
  have hcalls : ∀ c ∈ calls, c.admitted := by decide
  have hnone : ∀ p ∈ (none : Option Builder), p.ItemsBefore (⟨[], 64, 0⟩ : Buffer).data.length :=
    fun _ h => nomatch h
  obtain ⟨hok, hdrop⟩ := @runAddTags_eq Allocator.sample made.1 made.2 _ _ (parentsBefore_make Allocator.sample hnone 8)
    (TagListBuilder.drop_make hnone Layout.amd64) calls hcalls
  have hcontent : run.2.data.drop (Layout.amd64.sizeOf .tagList) = [0x61, 0, 0x62, 0, 0x63, 0] := by
    rw [show run.2.data = run.2.data.drop made.1.itemOffset from rfl, hdrop]
    rfl
  exact ⟨hcalls, hok, hcontent, by rw [hcontent]; decide, by rw [hcontent]; decide⟩

end BuiltTagLists


end Osmium
