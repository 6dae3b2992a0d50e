import Mathlib.Data.List.Basic
import Mathlib.Algebra.Group.Nat.Basic

/-!
# Basic OSM types

The item kinds and the fixed limits that the builders and the PBF random-access table share.
Their declarations live in `osmium/osm/item_type.hpp` and `osmium/osm/types.hpp`, which are not
part of the sources modelled here; the enumeration below keeps libosmium's numeric codes, and
`max_osm_string_length` keeps its value `256 * 4`.
-/

namespace Osmium

/-- `osmium::item_type`: the kind tag stored in every item header. -/
inductive ItemType
  | undefined
  | node
  | way
  | relation
  | area
  | changeset
  | tagList
  | wayNodeList
  | relationMemberList
  | relationMemberListWithFullMembers
  | outerRing
  | innerRing
  | changesetDiscussion
  deriving DecidableEq, Repr

namespace ItemType

/-- The 16-bit code of an item kind, as written into an item header. -/
def code : ItemType → ℕ
  | undefined => 0x00
  | node => 0x01
  | way => 0x02
  | relation => 0x03
  | area => 0x04
  | changeset => 0x05
  | tagList => 0x11
  | wayNodeList => 0x12
  | relationMemberList => 0x13
  | relationMemberListWithFullMembers => 0x23
  | outerRing => 0x40
  | innerRing => 0x41
  | changesetDiscussion => 0x80

/-- The kind whose code is `code`, as `Item::type()` reads it back from a header. -/
def ofCode? (code : ℕ) : Option ItemType :=
  [undefined, node, way, relation, area, changeset, tagList, wayNodeList, relationMemberList,
    relationMemberListWithFullMembers, outerRing, innerRing, changesetDiscussion].find? (·.code == code)

@[simp]
theorem ofCode?_code (t : ItemType) : ofCode? t.code = some t := by
  cases t <;> rfl

/-- Every code fits the two bytes of the header's `item_type` field. -/
theorem code_lt (t : ItemType) : t.code < 256 ^ 2 := by
  cases t <;> decide

/-- The kinds that `buffer.begin<osmium::OSMObject>()` stops at: nodes, ways, relations and
areas. -/
def isOSMObject : ItemType → Bool
  | node | way | relation | area => true
  | _ => false

/-- An OSM object never carries the `undefined` tag, which is what lets the block index use
`undefined` as its "never read" sentinel. -/
theorem ne_undefined_of_isOSMObject {t : ItemType} (h : t.isOSMObject = true) :
    t ≠ undefined := by
  rintro rfl
  cases h

end ItemType

/-- `osmium::max_osm_string_length`: the longest key, value, role or user name a builder
accepts. -/
def maxOsmStringLength : ℕ := 256 * 4

end Osmium
