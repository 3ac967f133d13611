import SmsEcho.General.PartialRun
import SmsEcho.General.TimerQueue
import SmsEcho.General.ByteBuffer
import SmsEcho.General.KeyedList
import SmsEcho.General.LeastScan
import SmsEcho.General.Blocks
import SmsEcho.Client.FileChunks
import SmsEcho.Client.Chunking
import SmsEcho.Client.WireFormat
import SmsEcho.Client.EventSlots
import SmsEcho.Client.NodeState
import SmsEcho.Client.Store
import SmsEcho.Client.Selection
import SmsEcho.Client.Handler
import SmsEcho.Client.StoreInvariant
import SmsEcho.Client.Advertisement
import SmsEcho.Client.NodeRun
import SmsEcho.Client.NodeHistory
import SmsEcho.Client.Holders
import SmsEcho.Client.MaximumSeen
import SmsEcho.Client.Disclosure
import SmsEcho.Client.EventDiscipline
import SmsEcho.Client.Shutdown
import SmsEcho.Client.FreshRequest
import SmsEcho.Client.AdvertisementDelay
import SmsEcho.Client.DeliveryOrder
import SmsEcho.Network.LossyNetwork
import SmsEcho.Network.Conservation
import SmsEcho.Network.ChannelExclusion
import SmsEcho.Network.DownloadSession
import SmsEcho.Network.ReliableBroadcast
import SmsEcho.Client.AdvertisedFiles
import SmsEcho.Client.ReceiveQueue
import SmsEcho.Client.ChunkIndices
import SmsEcho.Client.PacketBounds
import SmsEcho.Client.EncodeLoop
import SmsEcho.General.Dissemination
import SmsEcho.Network.Holdings
import SmsEcho.Network.RoundRuns
import SmsEcho.Client.EventTimes
import SmsEcho.Network.TimedRounds
import SmsEcho.Network.Conversation
import SmsEcho.Network.Uninterrupted
import SmsEcho.Network.Distribution
import SmsEcho.General.CausalLog
import SmsEcho.Network.Provenance
import SmsEcho.Network.Report
import SmsEcho.Client.InitialFiles
import SmsEcho.Network.Footprint
import SmsEcho.Network.Popularity
import SmsEcho.Network.Setup
import SmsEcho.Network.Starvation
import SmsEcho.Client.FillLoop
import SmsEcho.Network.Silence
import SmsEcho.Network.Traffic
import SmsEcho.Network.Deadline
import SmsEcho.General.BlockLedger
import SmsEcho.Client.ReplyHeaders
