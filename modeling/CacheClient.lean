import CacheClient.Bytes
import CacheClient.Client
import CacheClient.Client.Settings
import CacheClient.Command
import CacheClient.Connection
import CacheClient.Decimal
import CacheClient.Endpoint
import CacheClient.Endpoint.Address
import CacheClient.Exchange
import CacheClient.Expiry
import CacheClient.Failure
import CacheClient.Fault
import CacheClient.Network
import CacheClient.Payload
import CacheClient.Payload.Integer
import CacheClient.Pool
import CacheClient.Proofs.Arrival
import CacheClient.Proofs.Calls
import CacheClient.Proofs.Cluster
import CacheClient.Proofs.Creation
import CacheClient.Proofs.Engine
import CacheClient.Proofs.Exchanges
import CacheClient.Proofs.Fields
import CacheClient.Proofs.Grammar
import CacheClient.Proofs.Lines
import CacheClient.Proofs.OneMap
import CacheClient.Proofs.Ownership
import CacheClient.Proofs.Reading
import CacheClient.Proofs.Replies
import CacheClient.Proofs.Requests
import CacheClient.Proofs.Server
import CacheClient.Proofs.Session
import CacheClient.Proofs.Streams
import CacheClient.Proofs.Surplus
import CacheClient.Reply
import CacheClient.Router
import CacheClient.Script
import CacheClient.Shard
import CacheClient.Sockets
import CacheClient.Wire
import CacheClient.Proofs.Retrieval
import CacheClient.Proofs.Transcripts
import CacheClient.Proofs.Outgoing
import CacheClient.Proofs.Stack
import CacheClient.Proofs.Dialogues
import CacheClient.Proofs.Listing
import CacheClient.Proofs.Shards
import CacheClient.Proofs.Spelling
import CacheClient.Proofs.Sites
import CacheClient.Proofs.Isolation
import CacheClient.Proofs.Finality
import CacheClient.Proofs.Places
import CacheClient.Proofs.FlatReading
import CacheClient.Proofs.LineLimit
import CacheClient.Proofs.Custody
import CacheClient.Proofs.Intake
import CacheClient.Proofs.Limits
import CacheClient.Proofs.Refusals
import CacheClient.Proofs.Counters
import CacheClient.Proofs.Lapse
import CacheClient.Proofs.TwosComplement
import CacheClient.Proofs.AddressGrammar
import CacheClient.Proofs.AddressText
import CacheClient.Proofs.Spread
import CacheClient.Proofs.Batches
import CacheClient.Proofs.SocketCalls
import CacheClient.Proofs.Opening
import CacheClient.Proofs.OpenStreams
import CacheClient.Proofs.Shutdown
