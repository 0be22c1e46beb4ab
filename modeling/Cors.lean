import Cors.Lib.Bytes
import Cors.Lib.Memory
import Cors.Lib.Scan
import Cors.Lib.Table
import Cors.Lib.Run
import Cors.Lib.Lease
import Cors.Lib.Registry
import Cors.Lib.Erasing
import Cors.Lib.Greedy
import Cors.Lib.Wrapping
import Cors.Lib.OrderedMap
import Cors.Lib.Countdown
import Cors.Lib.Towers
import Cors.Protocol.Packets
import Cors.Protocol.RoundTrip
import Cors.Protocol.Bounds
import Cors.Protocol.Control
import Cors.Proxy.SimpleFwd
import Cors.Proxy.Ledger
import Cors.Proxy.Sessions
import Cors.Proxy.Rewriting
import Cors.Client.SimpleMpathManager
import Cors.Client.DataPath
import Cors.Proxy.SimpleNbmtr
import Cors.Proxy.NeighborTable
import Cors.Proxy.PongBuffer
import Cors.Proxy.Consistency
import Cors.Proxy.Abatement
import Cors.Proxy.Policy
import Cors.Lib.Text
import Cors.Proxy.Saving
import Cors.Proxy.NbConf
import Cors.Proxy.EventQueue
import Cors.Proxy.SkipList
import Cors.Proxy.SkipListShape
import Cors.Proxy.SkipListRuns
import Cors.Proxy.EntryQueue
import Cors.Proxy.MainLoop
import Cors.Proxy.SimpleRldvr
import Cors.Proxy.FilterLayout
import Cors.Proxy.Truncation
import Cors.Proxy.Inquiring
import Cors.Proxy.Forwarding
import Cors.Proxy.Handshake
import Cors.Proxy.Exchange
import Cors.Proxy.CorsProxy
import Cors.Proxy.Gossip
import Cors.Proxy.ForwarderIsolation
import Cors.Proxy.NeighborIsolation
import Cors.Proxy.Isolation
import Cors.Proxy.Admission
import Cors.Proxy.AdvanceRldvr
import Cors.Proxy.Answering
import Cors.Proxy.Demand
import Cors.Proxy.Hops
import Cors.Proxy.Advice
import Cors.Proxy.Settling
import Cors.Proxy.Expiry
import Cors.Lib.Network
import Cors.Client.SimpleRlysltr
import Cors.Client.Selection
import Cors.Client.Ranking
import Cors.Client.Cursors
import Cors.Client.StatMpathManager
import Cors.Client.StatPath
import Cors.Client.LossRate
import Cors.Client.GoodRelays
import Cors.Client.Channels
import Cors.Client.Rejection
import Cors.Client.CorsSocket
import Cors.Client.Counting
import Cors.Client.Addressing
import Cors.Client.Receiving
import Cors.Client.Overlay
import Cors.Client.Handling
import Cors.Client.Identity
import Cors.Client.Dropping
import Cors.Client.DelayCheck
import Cors.Client.Custody
import Cors.Client.Closing
import Cors.Client.Delivery
import Cors.Client.Messages
import Cors.Lib.Fields
import Cors.Lib.Precision
import Cors.Lib.Insertion
import Cors.Database.RecordSet
import Cors.Database.Translator
import Cors.Database.Reports
import Cors.Database.Queries
import Cors.Database.Leftovers
import Cors.Media.JitterBuffer
import Cors.Media.Playback
import Cors.Media.TwoPathBuffer
import Cors.Media.Merging
import Cors.Media.Player
import Cors.Media.Assembly
import Cors.Media.Unpacking
import Cors.Media.RtpData
import Cors.Media.ReadingBack
import Cors.Media.Listening
import Cors.Media.Recording
import Cors.Media.Predecoding
import Cors.Media.StreamPlayer
import Cors.Utils.Ip2asn
import Cors.Utils.Answers
