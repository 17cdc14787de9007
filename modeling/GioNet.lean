import GioNet.OrderedDelivery
import GioNet.FifoTransfer
import GioNet.AckHeader
import GioNet.Receiver
import GioNet.LongStream
import GioNet.Buffer
import GioNet.BufferSpec
import GioNet.ReceivePath
import GioNet.Transmission
import GioNet.FirstCycle
import GioNet.Recovery
import GioNet.Completion
import GioNet.Payloads
import GioNet.Retention
import GioNet.Faults
import GioNet.Server
import GioNet.Peers
import GioNet.Independence
import GioNet.HeaderFlags
import GioNet.AckTracking
import GioNet.Session
import GioNet.Outgoing
import GioNet.Sequencing
import GioNet.Representation
import GioNet.AckExchange
import GioNet.Termination
import GioNet.RoundTrip
import GioNet.Decoding
import GioNet.Library.HashTable
import GioNet.PeerMap
import GioNet.Readiness
import GioNet.Client
import GioNet.ClientServer
import GioNet.Accounting
import GioNet.Quiescence
import GioNet.LosslessDelivery
import GioNet.Resends
import GioNet.Provenance
import GioNet.Traffic
import GioNet.System
import GioNet.EndToEnd
import GioNet.Responsiveness
import GioNet.Shutdown
import GioNet.ClientThreads
import GioNet.Stopping
import GioNet.Chat
import GioNet.Library.SerialCalls
import GioNet.ChatOrder
import GioNet.ChatDelivery
import GioNet.Endpoint
import GioNet.Library.Ownership
import GioNet.SocketObject
import GioNet.SocketResources
import GioNet.Library.Simulation
import GioNet.SocketUse
import GioNet.SocketRuns
import GioNet.SocketLifetimes
