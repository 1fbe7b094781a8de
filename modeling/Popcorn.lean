import Popcorn.Lib.Bytes
import Popcorn.Lib.Search
import Popcorn.Lib.Run
import Popcorn.Lib.Lockstep
import Popcorn.Lib.Concat
import Popcorn.Lib.FlowGraph
import Popcorn.Lib.BreadthFirst
import Popcorn.Lib.Ring
import Popcorn.Lib.Linked
import Popcorn.Lib.Ranges
import Popcorn.Lib.Word
import Popcorn.Lib.StableSort
import Popcorn.Lib.OrderedSet
import Popcorn.Metadata.CallSite
import Popcorn.Metadata.Stackmap
import Popcorn.Metadata.StackmapProofs
import Popcorn.Metadata.Lowering
import Popcorn.Metadata.Write
import Popcorn.Metadata.Elf
import Popcorn.Metadata.ElfLayout
import Popcorn.Metadata.Lookup
import Popcorn.Metadata.UnwindSearch
import Popcorn.Metadata.UnwindSlices
import Popcorn.Metadata.Check
import Popcorn.Metadata.UnwindTable
import Popcorn.Liveness.LiveValues
import Popcorn.Liveness.Paths
import Popcorn.Liveness.Dag
import Popcorn.Liveness.Loops
import Popcorn.Liveness.Propagate
import Popcorn.Liveness.NestingTree
import Popcorn.Liveness.Soundness
import Popcorn.Liveness.Nesting
import Popcorn.Liveness.InsertStackMaps
import Popcorn.Runtime.Arch
import Popcorn.Runtime.Context
import Popcorn.Runtime.BitmapWords
import Popcorn.Runtime.Unwind
import Popcorn.Runtime.Frames
import Popcorn.Runtime.Virtual
import Popcorn.Runtime.SourcePass
import Popcorn.Runtime.UnwindProofs
import Popcorn.Runtime.Data
import Popcorn.Runtime.Rewrite
import Popcorn.Runtime.FixupList
import Popcorn.Runtime.Writes
import Popcorn.Runtime.ArchValues
import Popcorn.Runtime.X86Values
import Popcorn.Runtime.Groups
import Popcorn.Runtime.Aborts
import Popcorn.Runtime.LocalFixups
import Popcorn.Runtime.FrameWalk
import Popcorn.Runtime.Consume
import Popcorn.Runtime.Bitmaps
import Popcorn.Runtime.Placement
import Popcorn.Runtime.Footprint
import Popcorn.Runtime.Userspace
import Popcorn.Runtime.Storage
import Popcorn.Runtime.Layout
import Popcorn.Runtime.Places
import Popcorn.Runtime.Cells
import Popcorn.Runtime.Values
import Popcorn.Runtime.RewriteProofs
import Popcorn.Runtime.Preserve
import Popcorn.Runtime.Pointers
import Popcorn.Bomp.ThreadPool
import Popcorn.Bomp.StaticInit
import Popcorn.Bomp.Barrier
import Popcorn.Bomp.Region
import Popcorn.Bomp.RegionInv
import Popcorn.Bomp.RegionProofs
import Popcorn.Lib.LocationCounter
import Popcorn.Pyalign.Symbol
import Popcorn.Pyalign.Align
import Popcorn.Pyalign.Linker
import Popcorn.Runtime.ArmValues
import Popcorn.Runtime.Constants
import Popcorn.Bomp.Unsigned
import Popcorn.Bomp.Resize
import Popcorn.Bomp.Nested
import Popcorn.Lib.Delete
import Popcorn.Pyalign.Compare
import Popcorn.Pyalign.Match
import Popcorn.Lib.NameTable
import Popcorn.Globals.Names
import Popcorn.Duplicates.CopyLocs
import Popcorn.Duplicates.Search
import Popcorn.Duplicates.Owners
import Popcorn.Duplicates.Values
import Popcorn.Runtime.Init
import Popcorn.Runtime.FrameRule
import Popcorn.Runtime.Later
import Popcorn.Runtime.Agreement
import Popcorn.Runtime.ArchFinal
import Popcorn.Runtime.BitmapWords
import Popcorn.Runtime.FixupList
import Popcorn.Lib.Machine
import Popcorn.Lib.Lock
import Popcorn.Bomp.SpinLock
import Popcorn.Bomp.Reduce
import Popcorn.Bomp.Threadprivate
import Popcorn.Runtime.SiteLayout
import Popcorn.Runtime.Pairing
import Popcorn.Runtime.Journey
import Popcorn.Metadata.Toolchain
import Popcorn.Runtime.Twins
import Popcorn.Bomp.ParallelFor
import Popcorn.Metadata.Records
import Popcorn.Metadata.Rerun
