import LibFiber.Mutex
import LibFiber.RwLock.Exclusion
import LibFiber.Semaphore
import LibFiber.Cond.Claims
import LibFiber.Deque.Refinement
import LibFiber.Publish.Protocol
import LibFiber.Runtime.Blocking
import LibFiber.Runtime.Deferred
import LibFiber.Barrier
import LibFiber.Join.Pair
import LibFiber.Channel.Wakeups
import LibFiber.MultiSignal.Wakeups
import LibFiber.Hazard.Safety
import LibFiber.LockfreeRing.Order
import LibFiber.BoundedChannel.Order
import LibFiber.WorkQueue.Worker
import LibFiber.Spinlock
import LibFiber.DistFifo.Emptiness
import LibFiber.MpmcLifo.Stack
import LibFiber.LockfreeFifo.Order
import LibFiber.MpscRelaxed.Order
import LibFiber.MultiChannel.Contents
import LibFiber.Hazard.Registration
import LibFiber.Io.Flags
import LibFiber.MpmcStack.Flushes
import LibFiber.Gate.Bans
import LibFiber.Gate.Status
import LibFiber.ScheduleLock.Discipline
import LibFiber.WaitNodes.Circulation
import LibFiber.EventChannel
import LibFiber.Event.Wakeups
import LibFiber.Sleep.Durations
import LibFiber.Sleep.Queue
import LibFiber.Context
import LibFiber.Mpmc.Slots
import LibFiber.Mpmc.Progress
import LibFiber.MpmcLifo.Progress
import LibFiber.Event.Closing
import LibFiber.Io.Retries
import LibFiber.Scheduler.Next
