import KvServer.Number.Decimal
import KvServer.Text.Hex
import KvServer.Text.Printable
import KvServer.Text.Quoted
import KvServer.Text.Blank
import KvServer.Wire.Value
import KvServer.Wire.Buffer
import KvServer.Wire.Decode
import KvServer.Command.Verb
import KvServer.Command.Error
import KvServer.Command.Basic
import KvServer.Number.Binary64
import KvServer.Clock
import KvServer.Store.Strings
import KvServer.Store.Lists
import KvServer.ConnId
import KvServer.Blocking
import KvServer.Timer
import KvServer.Transactions
import KvServer.Config.Address
import KvServer.Replication
import KvServer.Server.State
import KvServer.Command.Strings
import KvServer.Command.Lists
import KvServer.Command.Replication
import KvServer.Command.Execute
import KvServer.Replica.Handshake
import KvServer.Config.Cli
import KvServer.Config.Server
import KvServer.Net.Ipv4
import KvServer.Net.Host
import KvServer.Launch
import KvServer.Net.Pipe
import KvServer.Connection
import KvServer.Net.Loopback
import KvServer.Reactor
import KvServer.Main
import KvServer.Proofs.Buffer
import KvServer.Proofs.Decimal
import KvServer.Proofs.RoundTrip
import KvServer.Proofs.Chunking
import KvServer.Proofs.Pipelining
import KvServer.Proofs.StoreView
import KvServer.Proofs.Recording
import KvServer.Proofs.ReplicaConsistency
import KvServer.Proofs.Transactions
import KvServer.Proofs.ReplyShapes
import KvServer.Proofs.HandlerReplies
import KvServer.Proofs.Replies
import KvServer.Proofs.ReplicaStream
import KvServer.Proofs.Handoff
import KvServer.Proofs.BlockedPops
import KvServer.Proofs.PopHistory
import KvServer.Proofs.BlocksPerConnection
import KvServer.Proofs.Processing
import KvServer.Proofs.Suspension
import KvServer.Proofs.Bookkeeping
import KvServer.Proofs.OpenConnections
import KvServer.Proofs.MasterLink
import KvServer.Proofs.MasterStream
import KvServer.Proofs.Grammar
import KvServer.Proofs.Refusals
import KvServer.Proofs.ListStore
import KvServer.Proofs.LazyExpiry
import KvServer.Proofs.ListRange
import KvServer.Proofs.PushScan
import KvServer.Proofs.Handshake
import KvServer.Proofs.TimerOrder
import KvServer.Proofs.DeliveryRounds
