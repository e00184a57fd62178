import VectorVault.AllocatorAccounts
import VectorVault.HnswReachability
import VectorVault.HnswUntrusted
import VectorVault.HnswSameAnswers
import VectorVault.ExactLine
import VectorVault.Ivf
import VectorVault.Index
import VectorVault.Collection
import VectorVault.Crc64
import VectorVault.IndexMembership
import VectorVault.Engine
import VectorVault.AllocatorOwnership
import VectorVault.CollectionMemory
import VectorVault.CollectionUpdates
import VectorVault.PersistenceLoad
import VectorVault.EngineMemory
import VectorVault.CollectionIndex
import VectorVault.EngineRefinement
import VectorVault.CollectionQuery
import VectorVault.SnapshotCodec
import VectorVault.AllocatorRuns
import VectorVault.AllocatorRestored
import VectorVault.EngineConfiguration
import VectorVault.BatchRollback
import VectorVault.IvfPartitions
import VectorVault.IvfHistories
import VectorVault.SharedReads
import VectorVault.LoadedIndex
import VectorVault.ReaderBounds
import VectorVault.LoadSafety
import VectorVault.LoadedMembership
import VectorVault.EngineViews
import VectorVault.FiniteVectors
import VectorVault.CrcWindows
import VectorVault.SnapshotImage
import VectorVault.SnapshotDamage
import VectorVault.CollectionTracked
import VectorVault.LoadedTracked
import VectorVault.SnapshotBody
import VectorVault.SnapshotRoundTrip
import VectorVault.RestoredCollection
import VectorVault.SavedRuns
import VectorVault.EngineHistories
import VectorVault.HistoryIndexes
import VectorVault.AllocatorGaps
import VectorVault.AllocatorOrder
import VectorVault.AllocatorStatistics
import VectorVault.HnswLayerSearch
import VectorVault.HnswNearest
import VectorVault.IvfExhaustive
import VectorVault.ExhaustiveQueries
import VectorVault.Library.FloatValue
import VectorVault.Distances
import VectorVault.AllocatorRooms
import VectorVault.BatchOneByOne
import VectorVault.ConcurrentSaves
import VectorVault.HeaderBytes
import VectorVault.HeaderDamage
import VectorVault.IndexedHistories
import VectorVault.ReloadedAnswers
import VectorVault.HnswGreedy
import VectorVault.IvfProbes
import VectorVault.IvfSettled
import VectorVault.IvfOverwrites
import VectorVault.IvfSplits
import VectorVault.IvfLines
import VectorVault.IvfDraws
import VectorVault.CrcRemainder
import VectorVault.SnapshotFields
import VectorVault.SimdKernels
import VectorVault.RegionLayout
import VectorVault.SlotAlignment
import VectorVault.ConcurrentCalls
import VectorVault.LockPrograms
import VectorVault.UniformCapacity
import VectorVault.DurableEngine
import VectorVault.SnapshotRegister
import VectorVault.Library.BestFirstBreadth
import VectorVault.HnswBreadth
import VectorVault.PyLiveHandles
