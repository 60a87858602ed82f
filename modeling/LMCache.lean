import LMCache.Distributed.StorageControllers.PrefetchExposure
import LMCache.Distributed.L2Adapters.NixlLoads
import LMCache.Distributed.L2Adapters.NixlSlots
import LMCache.Distributed.L2Adapters.FileNames
import LMCache.Distributed.L2Adapters.NativeRouting
import LMCache.Distributed.EvictionTracking
import LMCache.Distributed.MemoryConservation
import LMCache.Distributed.StorageControllers.StoreLocks
import LMCache.CacheController.ClusterLookup
import LMCache.CacheController.Locks
import LMCache.CacheController.RegistrationRuns
import LMCache.Multiprocess.BlendSoundness
import LMCache.CacheController.IncrementalKv
import LMCache.Multiprocess.PrefixKeys
import LMCache.StorageBackend.GdsBackend
import LMCache.StorageBackend.PutPairing
import LMCache.CacheEngine.RetrieveTruth
import LMCache.StorageBackend.LookupAnswers
import LMCache.CacheEngine.PinsUndone
import LMCache.CacheEngine.PrefetchRequests
import LMCache.Fidelity.StateRaces
import LMCache.Redis.Connector
import LMCache.Protocol.MetaRoundTrips
import LMCache.RawBlock.CrashRecovery
import LMCache.StorageBackend.PolicyAgreement
import LMCache.LookupClient.LookupRuns
import LMCache.Integration.FailedLoads
import LMCache.StorageBackend.NixlStaticRuns
import LMCache.StorageBackend.P2PRuns
import LMCache.StorageBackend.PDRuns
import LMCache.Multiprocess.GpuTransferRuns
import LMCache.CacheGen.CdfTables
import LMCache.Integration.TrackingRuns
import LMCache.Multiprocess.HashWindows
import LMCache.StorageOps.RangePatternMatcher
import LMCache.Distributed.StorageControllers.LoadPlans
import LMCache.SegmentTokenDatabase
import LMCache.MemoryManagement.TensorAllocator
import LMCache.MemoryManagement.PageLayoutRuns
import LMCache.StorageOps.TTLLockRaces
import LMCache.StorageBackend.RemotePuts
import LMCache.Fidelity.StoreReleases
import LMCache.StorageBackend.AsyncSerializer
import LMCache.StorageBackend.ShutdownRuns
import LMCache.StorageBackend.RemoteKeys
import LMCache.StorageBackend.PeerServing
import LMCache.CacheEngine.Compress
import LMCache.NativeConnector.Workers
import LMCache.NativeConnector.CompletionQueue
import LMCache.Fidelity.LayerGenerators
import LMCache.Fidelity.KvEventRuns
import LMCache.Fidelity.Int8RoundTrip
import LMCache.Integration.RetrieveResults
import LMCache.Integration.MultimodalKeys
import LMCache.Multiprocess.StoreFailures
import LMCache.Multiprocess.BlendLookup
import LMCache.Multiprocess.MessageQueue
import LMCache.StorageBackend.NixlDynamic
import LMCache.MemKernels.HostCopies
import LMCache.MemKernels.PagedTransfers
import LMCache.MemoryManagement.LazyExpansion
import LMCache.RawBlock.DeviceIO
import LMCache.CacheController.SyncLockout
import LMCache.GpuConnector.LayerwiseTransfers
import LMCache.MemoryManagement.PageOwnership
