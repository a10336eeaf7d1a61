import ArielOS.Lib.Run
import ArielOS.Lib.Segment
import ArielOS.Fault
import ArielOS.RunQueue.CList
import ArielOS.Lib.Queues
import ArielOS.RunQueue.CListSpec
import ArielOS.RunQueue.RunQueue
import ArielOS.RunQueue.RunQueueSpec
import ArielOS.RunQueue.Refinement
import ArielOS.Threads.Config
import ArielOS.Threads.Scheduler
import ArielOS.Threads.ThreadFlags
import ArielOS.Threads.ThreadList
import ArielOS.Threads.Timeout
import ArielOS.Threads.Kernel
import ArielOS.Threads.SchedulerSpec
import ArielOS.RunQueue.IterSpec
import ArielOS.RunQueue.Iteration
import ArielOS.Threads.ReadyQueue
import ArielOS.Threads.Preserve
import ArielOS.Sync.WaitQueue
import ArielOS.Threads.System
import ArielOS.Threads.ThreadListSpec
import ArielOS.Threads.SystemSpec
import ArielOS.Threads.SingleCore
import ArielOS.Threads.Assertion
import ArielOS.Threads.SingleCoreRuns
import ArielOS.Threads.MultiCore
import ArielOS.Threads.IdleThreads
import ArielOS.Threads.QueueCoherence
import ArielOS.Threads.WorkConservation
import ArielOS.Threads.Waiters
import ArielOS.Threads.PriorityLists
import ArielOS.Sync.Mutex
import ArielOS.Sync.MutexSpec
import ArielOS.Sync.MutualExclusion
import ArielOS.Threads.QueuedThreads
import ArielOS.Lib.Pairing
import ArielOS.Sync.Channel
import ArielOS.Sync.ChannelSpec
import ArielOS.Sync.ChannelDelivery
import ArielOS.Threads.FlagSystem
import ArielOS.Threads.FlagWaits
import ArielOS.Threads.OpEffects
import ArielOS.Sync.LockEffects
import ArielOS.Sync.PriorityInheritance
import ArielOS.Sync.PriorityReturn
import ArielOS.Coapcore.OrderedPool
import ArielOS.Coapcore.OrderedPoolSpec
import ArielOS.Coapcore.Helpers
import ArielOS.Coapcore.PoolRefinement
import ArielOS.Coapcore.Ace
import ArielOS.Coapcore.SecContext
import ArielOS.Coapcore.Handler
import ArielOS.Coapcore.Contexts
import ArielOS.Coapcore.SecContextSpec
import ArielOS.Coapcore.HandlerSpec
import ArielOS.Coapcore.ClearPlatform
import ArielOS.Coapcore.Identifiers
import ArielOS.Coapcore.Authorization
import ArielOS.Coapcore.Survival
import ArielOS.Coapcore.CriticalItems
import ArielOS.Coapcore.Eviction
import ArielOS.Coapcore.Responses
import ArielOS.Sync.Lock
import ArielOS.Sync.Objects
import ArielOS.Sync.PausedThreads
import ArielOS.Sync.ObjectEffects
import ArielOS.Sync.WaitLists
import ArielOS.Sync.WakeUps
import ArielOS.Sync.Timers
import ArielOS.RingBuffer.RingBuffer
import ArielOS.RingBuffer.RingBufferSpec
import ArielOS.Threads.ThreadSlots
import ArielOS.Threads.SlotReuse
import ArielOS.Coapcore.ConfigBuilder
import ArielOS.Coapcore.TokenAlgorithms
import ArielOS.Lib.Cbor
import ArielOS.Coapcore.HeaderPrecedence
import ArielOS.Coapcore.DecryptionLimits
import ArielOS.Coapcore.StoredPolicy
import ArielOS.Coapcore.Scope
import ArielOS.Coapcore.ScopeSpec
import ArielOS.Coapcore.ScopeDecision
import ArielOS.Coapcore.Peers
import ArielOS.Coapcore.PeersSpec
import ArielOS.Coapcore.Classification
import ArielOS.Sensors.Signal
import ArielOS.Sensors.Stts22h
import ArielOS.Sensors.Freshness
import ArielOS.Sensors.Nrf91Gnss
import ArielOS.Sensors.Triggers
import ArielOS.Sync.Semaphore
import ArielOS.Sync.SemaphoreSpec
import ArielOS.Sync.TimedWaits
import ArielOS.Sync.TimedWaitsSpec
import ArielOS.Sync.FlagUse
import ArielOS.Sync.FlagAccount
import ArielOS.Native.InfiniCore
import ArielOS.Native.Blocking
import ArielOS.Sensors.Sample
import ArielOS.Sensors.ChannelsSamplesZip
import ArielOS.Sensors.GnssTime
import ArielOS.RingBuffer.Capacity
import ArielOS.Embassy.Identity
import ArielOS.Sensors.SignalUse
import ArielOS.Sensors.ModeChanges
import ArielOS.Embassy.Delegate
import ArielOS.Embassy.ThreadExecutor
import ArielOS.Threads.Affinity
import ArielOS.Coapcore.Reinsertion
import ArielOS.Threads.Arch.CortexM
import ArielOS.Threads.Arch.CortexMSpec
import ArielOS.Threads.Arch.SetupStack
import ArielOS.Threads.RoundRobin
import ArielOS.Threads.Arch.ContextSwitch
import ArielOS.Threads.Arch.RiscvSpec
import ArielOS.Lib.Rv32
import ArielOS.Threads.Arch.Riscv
import ArielOS.Sync.CompatMutex
import ArielOS.Sync.CompatMutexSpec
import ArielOS.Sync.CompatPriority
import ArielOS.Embassy.EspTimeDriver
import ArielOS.Threads.SmpRoundRobin
import ArielOS.Lib.TimeQueue
import ArielOS.Lib.Counted
import ArielOS.Native.CriticalSection
