import CStructures.Lib.Loop
import CStructures.Lib.Run
import CStructures.Lib.State
import CStructures.Lib.Word
import CStructures.Lib.Mixing
import CStructures.Lib.Logged
import CStructures.Lib.Sequence
import CStructures.Lib.Sweep
import CStructures.Lib.SortedTable
import CStructures.Lib.OpenAddressing
import CStructures.Lib.Traversal
import CStructures.Lib.Triangular
import CStructures.Lib.Halving
import CStructures.Lib.Text
import CStructures.Lib.LiveBlocks
import CStructures.Lib.Ownership
import CStructures.Lib.Amortized
import CStructures.Model.Allocator
import CStructures.Model.Hash
import CStructures.Model.Hashmap
import CStructures.Model.HashmapHeap
import CStructures.Model.Btree
import CStructures.Model.Vector
import CStructures.Model.String
import CStructures.Model.Memory
import CStructures.Model.SharedHeap
import CStructures.Proofs.HashmapLayout
import CStructures.Proofs.HashmapProbe
import CStructures.Proofs.HashmapInsert
import CStructures.Proofs.HashmapRehash
import CStructures.Proofs.HashmapRefinement
import CStructures.Proofs.HashmapProbing
import CStructures.Proofs.HashmapTombstones
import CStructures.Proofs.HashmapIteration
import CStructures.Proofs.HashmapLoop
import CStructures.Proofs.HashmapLoad
import CStructures.Proofs.HashmapRegions
import CStructures.Proofs.HashmapSmallTables
import CStructures.Proofs.HashmapCoverage
import CStructures.Proofs.HashmapFailure
import CStructures.Proofs.HashJenkins
import CStructures.Proofs.BtreeLayout
import CStructures.Proofs.BtreeSearch
import CStructures.Proofs.BtreeEdit
import CStructures.Proofs.BtreeRefinement
import CStructures.Proofs.BtreeAccess
import CStructures.Proofs.BtreeSlots
import CStructures.Proofs.BtreeFailure
import CStructures.Proofs.BtreeUnusedKey
import CStructures.Proofs.BtreeGrowth
import CStructures.Proofs.BtreeEntries
import CStructures.Proofs.BtreeForEach
import CStructures.Proofs.BtreeFastErase
import CStructures.Proofs.BtreeEraseValue
import CStructures.Proofs.BtreeExisting
import CStructures.Proofs.BtreeLowerBound
import CStructures.Proofs.VectorLayout
import CStructures.Proofs.VectorEdit
import CStructures.Proofs.VectorTraverse
import CStructures.Proofs.VectorRefinement
import CStructures.Proofs.VectorForEach
import CStructures.Proofs.VectorBooks
import CStructures.Proofs.VectorReverse
import CStructures.Proofs.VectorFailure
import CStructures.Proofs.VectorIndices
import CStructures.Proofs.StringTokens
import CStructures.Proofs.StringLines
import CStructures.Proofs.MemoryReport
import CStructures.Proofs.MemoryCalls
import CStructures.Proofs.MemoryCounters
import CStructures.Proofs.MemoryBooks
import CStructures.Proofs.MemoryFailure
import CStructures.Proofs.SharedHeapRequests
import CStructures.Proofs.SharedHeapHashmap
import CStructures.Proofs.SharedHeapClients
import CStructures.Proofs.SharedHeapCalls
import CStructures.Proofs.SharedHeapTracker
import CStructures.Proofs.VectorAmortized
import CStructures.Proofs.BtreeAmortized
import CStructures.Proofs.HashmapAmortized
