import AllocCounter.OfflineMemoryMap
import AllocCounter.MemoryMap
import AllocCounter.ExactUnmapping
import AllocCounter.MapAgreement
import AllocCounter.OverlappingMappings
import AllocCounter.LeakSoundness
import AllocCounter.Ownership
import AllocCounter.BlockCapacity
import AllocCounter.StackIdentity
import AllocCounter.SharedAllocations
import AllocCounter.DestructionOrder
import AllocCounter.Ranking
import AllocCounter.EventLog
import AllocCounter.Judgement
import AllocCounter.LeakReport
import AllocCounter.PatrolPasses
import AllocCounter.MovedRecords
import AllocCounter.WatchChanges
import AllocCounter.FailedReallocations
import AllocCounter.OverflowingProducts
import AllocCounter.BlockContents
import AllocCounter.Reentrancy
import AllocCounter.KernelRaces
import AllocCounter.FailedMappings
import AllocCounter.ReplacedMappings
import AllocCounter.SliceParts
import AllocCounter.Fingerprints
import AllocCounter.HumanSizes
import AllocCounter.PosixMemalign
import AllocCounter.MemoryProtector
import AllocCounter.SignBoundary
import AllocCounter.LeakCompleteness
import AllocCounter.DetectionLatency
import AllocCounter.LeakAnnouncements
import AllocCounter.ReportSchedule
import AllocCounter.CallStatistics
import AllocCounter.RoundedClocks
import AllocCounter.LoggedMemory
import AllocCounter.FilteredLogs
import AllocCounter.UnmappingOrder
import AllocCounter.ReportDelays
import AllocCounter.StackLog
import AllocCounter.ManyProcesses
import AllocCounter.CriticalSections
import AllocCounter.LockOrder
import AllocCounter.SymbolLookups
import AllocCounter.Settings
import AllocCounter.ProcessStatus
