import ZvolRescue.Draid.Layout
import ZvolRescue.Raidz.Map
import ZvolRescue.Raidz.RoundTrip
import ZvolRescue.Zio.Soundness
import ZvolRescue.Zio.Recovery
import ZvolRescue.Zio.Removed
import ZvolRescue.Dmu.Object
import ZvolRescue.Extract.Recorded
import ZvolRescue.Extract.Honoured
import ZvolRescue.Extract.Whole
import ZvolRescue.Extract.Visited
import ZvolRescue.Zio.Salvage
import ZvolRescue.Extract.Accounting
import ZvolRescue.Extract.Recursive
import ZvolRescue.Extract.Evidence
import ZvolRescue.Carve.Index
import ZvolRescue.Carve.Workspace
import ZvolRescue.Scan.Backup
import ZvolRescue.Ondisk.Geom
import ZvolRescue.Lib.Attempts
import ZvolRescue.Scan.Member
import ZvolRescue.Carve.Member
import ZvolRescue.Carve.Events
import ZvolRescue.Carve.Chunks
import ZvolRescue.Carve.Resume
import ZvolRescue.Carve.Places
import ZvolRescue.Source.Ledger
import ZvolRescue.Extract.Related
import ZvolRescue.Extract.AskedOnce
import ZvolRescue.Dsl.Accounts
import ZvolRescue.Dsl.Tree
import ZvolRescue.Timeline.Events
import ZvolRescue.Timeline.Report
import ZvolRescue.Files.Extract
import ZvolRescue.Files.Manifest
import ZvolRescue.Lib.Keyed
import ZvolRescue.Lib.Extents
import ZvolRescue.Ondisk.Spacemap
import ZvolRescue.Dmu.Locate
import ZvolRescue.Ondisk.NvlistEncode
import ZvolRescue.Topology.Pool
import ZvolRescue.Topology.Stale
import ZvolRescue.Topology.Select
import ZvolRescue.Topology.Committed
import ZvolRescue.Zio.Spares
import ZvolRescue.Topology.Order
import ZvolRescue.Lib.Counting
import ZvolRescue.Zio.Honest
import ZvolRescue.Zio.Written
import ZvolRescue.Zio.Unreadable
import ZvolRescue.Topology.Readable
import ZvolRescue.Lib.Appends
import ZvolRescue.Report.Log
import ZvolRescue.Crypt.Dnode
import ZvolRescue.Report.Warned
import ZvolRescue.Zio.Gang
import ZvolRescue.Carve.Sequence
import ZvolRescue.Zpl.Tree
import ZvolRescue.Files.Tree
import ZvolRescue.Files.Layout
import ZvolRescue.Files.Part
import ZvolRescue.Files.Beside
import ZvolRescue.Files.Modes
import ZvolRescue.Ondisk.Pointer
import ZvolRescue.Ondisk.Tokens
import ZvolRescue.Ondisk.Leaf
import ZvolRescue.Ondisk.MapEntries
import ZvolRescue.Source.Sectors
import ZvolRescue.Source.Ddrescue
import ZvolRescue.Ondisk.Remap
import ZvolRescue.Ondisk.Ring
import ZvolRescue.Common.Arguments
import ZvolRescue.Zio.Cache
import ZvolRescue.Zpl.Walk
import ZvolRescue.Carve.Pointers
import ZvolRescue.Dmu.Space
import ZvolRescue.Carve.Assess
import ZvolRescue.Zpl.Attributes
import ZvolRescue.Carve.Damage
import ZvolRescue.Dmu.Range
import ZvolRescue.Carve.Naming
import ZvolRescue.Ondisk.Signature
import ZvolRescue.Carve.Contents
import ZvolRescue.Ondisk.DnodeSpec
import ZvolRescue.Carve.Stored
import ZvolRescue.Files.Copy
import ZvolRescue.Lib.Paths
import ZvolRescue.Files.Inside
import ZvolRescue.Lib.Calendar
import ZvolRescue.Lib.Decimal
import ZvolRescue.Common.Timestamp
import ZvolRescue.Common.Accepted
import ZvolRescue.Report.Pem
import ZvolRescue.Lib.Absorb
import ZvolRescue.Ondisk.EdonR
import ZvolRescue.Ondisk.Skein
import ZvolRescue.Zpl.Lookup
import ZvolRescue.Files.Xattrs
import ZvolRescue.Zio.Searches
import ZvolRescue.Extract.Torn
import ZvolRescue.Topology.Assumed
import ZvolRescue.Zio.Labelled
import ZvolRescue.Zio.OrderSearch
import ZvolRescue.Crypt.Keys
import ZvolRescue.Dsl.Installed
import ZvolRescue.Extract.Find
import ZvolRescue.Files.Opening
