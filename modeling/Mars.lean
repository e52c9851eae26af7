import Mars.PathDiscovery.Freeze
import Mars.PathDiscovery.Downstream
import Mars.Dt.Distribution
import Mars.Table.FibHashTable
import Mars.Table.Flattened
import Mars.Table.Branches
import Mars.Fw.QueuedEntries
import Mars.PathDiscovery.Relevance
import Mars.Dt.FailureWindow
import Mars.Dt.Bandwidth
import Mars.Fw.LatestToken
import Mars.Consumer.Discovery
import Mars.Consumer.Recovery
import Mars.Consumer.Karn
import Mars.Consumer.RetxQueue
import Mars.Consumer.Backoff
import Mars.Object.Produce
import Mars.Face.FrameSize
import Mars.Face.Reassembly
import Mars.Face.Dispatch
import Mars.Engine.Pending
import Mars.Dv.ShortestPaths
import Mars.Dv.FibRounds
import Mars.Dv.PrefixLog
import Mars.Dv.Advert
import Mars.Sync.AloWindow
