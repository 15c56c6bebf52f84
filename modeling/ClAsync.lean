import ClAsync.Lib.Runs
import ClAsync.Lib.Wakers
import ClAsync.Lib.Text
import ClAsync.Lib.Outcome
import ClAsync.Lib.Layout
import ClAsync.Lib.Broadcast
import ClAsync.Lib.FileTree
import ClAsync.Lib.Stretches
import ClAsync.Lib.Time
import ClAsync.Sync.Semaphore
import ClAsync.Sync.Conservation
import ClAsync.Sync.RwLock
import ClAsync.Sync.WakerQueue
import ClAsync.Sync.RwLockProgress
import ClAsync.Sync.SemaphoreProgress
import ClAsync.Sync.Hoard
import ClAsync.Sync.Mutex
import ClAsync.Io.Operation
import ClAsync.Io.Completion
import ClAsync.Io.Traffic
import ClAsync.Io.Reclaim
import ClAsync.Io.Delivery
import ClAsync.Io.Buffers
import ClAsync.Io.Context
import ClAsync.Worker.Loop
import ClAsync.Worker.Backpressure
import ClAsync.Worker.Shutdown
import ClAsync.Worker.Submissions
import ClAsync.Worker.Graceful
import ClAsync.Task.Executor
import ClAsync.Worker.Tasks
import ClAsync.Worker.Wakeups
import ClAsync.Worker.Leaving
import ClAsync.Worker.Announce
import ClAsync.Worker.Notifications
import ClAsync.Pool.Dispatch
import ClAsync.Pool.Keys
import ClAsync.Pool.Delivery
import ClAsync.Pool.Cancel
import ClAsync.Pool.InFlight
import ClAsync.Pool.Spawn
import ClAsync.Pool.Accepted
import ClAsync.Pool.Selection
import ClAsync.Net.Address
import ClAsync.Net.Parse
import ClAsync.Net.Literal
import ClAsync.Net.Display
import ClAsync.Net.Canonical
import ClAsync.Net.Classify
import ClAsync.Io.ControlMessage
import ClAsync.Io.ControlLosses
import ClAsync.Io.ControlBuffer
import ClAsync.Io.ControlRoundTrip
import ClAsync.Io.ControlCodec
import ClAsync.Io.ControlTotal
import ClAsync.Io.ControlWalk
import ClAsync.Io.ControlGaps
import ClAsync.Net.SocketAddress
import ClAsync.Net.Endpoints
import ClAsync.Net.Listener
import ClAsync.Io.Recovery
import ClAsync.Io.Entries
import ClAsync.Io.SendMessage
import ClAsync.Io.Descriptors
import ClAsync.Io.Ownership
import ClAsync.Fs.Directory
import ClAsync.Fs.File
import ClAsync.Fs.Stats
import ClAsync.Fs.ReadAll
import ClAsync.Timing.Sleep
import ClAsync.Timing.Wakeup
import ClAsync.Timing.Release
import ClAsync.Timing.Arming
import ClAsync.Events.Queue
import ClAsync.Events.Delivery
import ClAsync.Events.Channel
import ClAsync.Worker.MessageChannel
import ClAsync.Worker.Signals
import ClAsync.Events.Registration
import ClAsync.Fs.Iteration
import ClAsync.Io.ReceiveMessage
import ClAsync.Worker.Fairness
import ClAsync.Pool.Lifecycle
import ClAsync.Io.Closing
import ClAsync.Io.Reuse
import ClAsync.Net.Server
