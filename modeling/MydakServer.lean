import MydakServer.RequestQueueFailure
import MydakServer.Inert
import MydakServer.Conservation
import MydakServer.Handles
import MydakServer.Codec
import MydakServer.Entries
import MydakServer.Streams
import MydakServer.Waiting
import MydakServer.Handovers
import MydakServer.Deletions
import MydakServer.Backlog
import MydakServer.Clients
import MydakServer.Conversation
import MydakServer.Redelivery
import MydakServer.Calls
import MydakServer.Atomicity
import MydakServer.Wraparound
import MydakServer.Stranded
import MydakServer.UserIds
import MydakServer.Lifetimes
import MydakServer.FreeList
import MydakServer.StaticMap
import MydakServer.Parameters
import MydakServer.Arguments
import MydakServer.Hex
import MydakServer.Rest
import MydakServer.Backpressure
import MydakServer.Outage
import MydakServer.Relays
import MydakServer.Provenance
import MydakServer.Mailboxes
import MydakServer.Arrival
import MydakServer.Defined
import MydakServer.Slots
import MydakServer.Accessor
import MydakServer.Fates
