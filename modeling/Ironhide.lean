import Ironhide.Lib.Bytes
import Ironhide.Lib.Text
import Ironhide.Lib.OnesComplement
import Ironhide.Lib.Buffer
import Ironhide.Lib.Program
import Ironhide.Lib.Resources
import Ironhide.Lib.Joining
import Ironhide.Lib.Json
import Ironhide.Lib.StdMap
import Ironhide.Lib.SearchTree
import Ironhide.Lib.Threads
import Ironhide.Lib.Schedule
import Ironhide.Model.DbQuery
import Ironhide.Model.ConnectionEntry
import Ironhide.Model.PacketUtils
import Ironhide.Model.Classifier
import Ironhide.Model.SfcHeader
import Ironhide.Model.Endpoint
import Ironhide.Model.Handler
import Ironhide.Model.Client
import Ironhide.Model.Ingress
import Ironhide.Model.Egress
import Ironhide.Model.Reads
import Ironhide.Model.Address
import Ironhide.Model.UrlBuilder
import Ironhide.Model.Query
import Ironhide.Model.Roulette
import Ironhide.Proofs.Table
import Ironhide.Proofs.Framing
import Ironhide.Proofs.Observed
import Ironhide.Proofs.Exiting
import Ironhide.Proofs.ForwardTcp
import Ironhide.Proofs.FromChain
import Ironhide.Proofs.SendBack
import Ironhide.Proofs.ReturnTcp
import Ironhide.Proofs.Connection
import Ironhide.Proofs.Keys
import Ironhide.Proofs.ReturnUdp
import Ironhide.Proofs.UdpReplies
import Ironhide.Proofs.Descriptors
import Ironhide.Proofs.EgressFlow
import Ironhide.Proofs.Classify
import Ironhide.Proofs.Outage
import Ironhide.Proofs.Registration
import Ironhide.Proofs.RemoteIds
import Ironhide.Proofs.IngressRuns
import Ironhide.Proofs.Leaks
import Ironhide.Proofs.UnknownConnection
import Ironhide.Proofs.DeadConnections
import Ironhide.Proofs.EgressSockets
import Ironhide.Proofs.UdpAttribution
import Ironhide.Proofs.Checksum
import Ironhide.Proofs.Forwarded
import Ironhide.Proofs.Oversized
import Ironhide.Proofs.Destination
import Ironhide.Proofs.HeaderCopies
import Ironhide.Proofs.Lossless
import Ironhide.Proofs.SelfCheck
import Ironhide.Proofs.KeyOrder
import Ironhide.Proofs.Offsets
import Ironhide.Proofs.Protocols
import Ironhide.Proofs.Truncated
import Ironhide.Proofs.ClosedClient
import Ironhide.Proofs.ClientSockets
import Ironhide.Proofs.NshLayout
import Ironhide.Proofs.Addresses
import Ironhide.Proofs.QueryUrls
import Ironhide.Proofs.Replies
import Ironhide.Proofs.Requests
import Ironhide.Proofs.StoredQuery
import Ironhide.Proofs.LastEndpoint
import Ironhide.Proofs.PathJoining
import Ironhide.Lib.Machines
import Ironhide.Model.ThreadPool
import Ironhide.Lib.Relaying
import Ironhide.Lib.Hosting
import Ironhide.Model.Server
import Ironhide.Proofs.PoolRuns
import Ironhide.Proofs.PoolRest
import Ironhide.Proofs.PoolShutdown
import Ironhide.Lib.Passing
import Ironhide.Lib.GetOpt
import Ironhide.Model.SfcFixedLengthHeader
import Ironhide.Model.Main
import Ironhide.Proofs.Servers
import Ironhide.Proofs.Process
import Ironhide.Proofs.Translation
import Ironhide.Proofs.IngressProcess
import Ironhide.Proofs.EgressProcess
import Ironhide.Proofs.EgressConnections
import Ironhide.Proofs.TableRefinement
import Ironhide.Proofs.Returning
import Ironhide.Proofs.EndToEnd
import Ironhide.Proofs.Answered
import Ironhide.Proofs.Rewritten
import Ironhide.Proofs.Exchanges
import Ironhide.Proofs.CommandLine
import Ironhide.Lib.Accounts
import Ironhide.Model.SfcMap
import Ironhide.Proofs.ServerMemory
import Ironhide.Proofs.SharedClassifier
