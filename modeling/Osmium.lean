import Osmium.Osm.Types
import Osmium.Io.File
import Osmium.Io.BlobHeader
import Osmium.Io.BlockIndexTable
import Osmium.Io.GetParsedBlock
import Osmium.Io.Descriptors
import Osmium.Memory.Buffer
import Osmium.Memory.Item
import Osmium.Builder.Builder
import Osmium.Builder.TagList
import Osmium.Builder.Members
import Osmium.Builder.MemberList
import Osmium.Builder.ChangesetDiscussion
import Osmium.Builder.OSMObject
import Osmium.Builder.Session
import Osmium.Builder.Alignment
import Osmium.Builder.Frame
import Osmium.Builder.Walk
import Osmium.Builder.Unwind
import Osmium.Builder.Document
import Osmium.Builder.Frames
import Osmium.Builder.Refinement
