import RmwUnixSocket.Lib.Machine
import RmwUnixSocket.Lib.Words
import RmwUnixSocket.Lib.Exclusive
import RmwUnixSocket.Registry.Layout
import RmwUnixSocket.Registry.Program
import RmwUnixSocket.Registry.Moves
import RmwUnixSocket.Registry.Protocol
import RmwUnixSocket.Registry.Invariant
import RmwUnixSocket.Registry.Bounds
import RmwUnixSocket.Registry.Paths
import RmwUnixSocket.Registry.AddRemove
import RmwUnixSocket.Registry.QueryResults
import RmwUnixSocket.Registry.Loops
import RmwUnixSocket.Registry.Visibility
import RmwUnixSocket.Registry.Reclaim
import RmwUnixSocket.Registry.Sweep
import RmwUnixSocket.Lib.ByteMemory
import RmwUnixSocket.Payload.Ring
import RmwUnixSocket.Payload.Fetch
import RmwUnixSocket.Registry.Open
import RmwUnixSocket.Lib.SlotRing
import RmwUnixSocket.Lib.Keyed
import RmwUnixSocket.Latch.Ring
import RmwUnixSocket.Latch.Writer
import RmwUnixSocket.Latch.Scan
import RmwUnixSocket.Latch.Collect
import RmwUnixSocket.Latch.Snapshot
import RmwUnixSocket.Latch.History
import RmwUnixSocket.Latch.Replay
import RmwUnixSocket.Latch.Publish
import RmwUnixSocket.Latch.Order
import RmwUnixSocket.Wait.Call
import RmwUnixSocket.Wait.Arming
import RmwUnixSocket.Wait.Report
import RmwUnixSocket.Wait.Timeout
import RmwUnixSocket.Wait.Doorbell
import RmwUnixSocket.Registry.Table
import RmwUnixSocket.Graph.Coverage
import RmwUnixSocket.Graph.Delivery
import RmwUnixSocket.Hostile.Bounds
import RmwUnixSocket.Wire.RoundTrip
import RmwUnixSocket.Latch.Watermark
import RmwUnixSocket.Latch.Lossless
import RmwUnixSocket.Names.TypeName
import RmwUnixSocket.Names.Orphans
import RmwUnixSocket.Names.Unique
import RmwUnixSocket.Receive.RecvFrom
import RmwUnixSocket.Receive.Drain
import RmwUnixSocket.Receive.Take
import RmwUnixSocket.Receive.Concurrent
import RmwUnixSocket.Wire.Retention
import RmwUnixSocket.Latch.Ownership
import RmwUnixSocket.Lib.Custody
import RmwUnixSocket.Lifecycle.Resources
import RmwUnixSocket.Lifecycle.Segments
import RmwUnixSocket.Lifecycle.Ledger
import RmwUnixSocket.Wait.GraphGuards
import RmwUnixSocket.Registry.Ringing
import RmwUnixSocket.Lib.OrderedMap
import RmwUnixSocket.Graph.Introspect
import RmwUnixSocket.Graph.Throttle
import RmwUnixSocket.Lib.Simulation
import RmwUnixSocket.Graph.Refinement
import RmwUnixSocket.Graph.QueryRefinement
import RmwUnixSocket.Graph.Fanout
