import UserTcp.Connection.Summary
import UserTcp.Exchange.Party
import UserTcp.Outbound.Lemmas
import UserTcp.Socket.Session
import UserTcp.Proofs.NearestIndex
import UserTcp.Proofs.Pipe.Carries
import UserTcp.Proofs.Reassembly.Runs
import UserTcp.Proofs.Reassembly.Store
import UserTcp.Proofs.Reassembly.Content
import UserTcp.Proofs.Reassembly.Insert
import UserTcp.Proofs.Reassembly.Assembles
import UserTcp.Proofs.Reassembly.Exactness
import UserTcp.Proofs.Reassembly.Checked
import UserTcp.Proofs.Reassembly.Representation
import UserTcp.Proofs.Reassembly.Arrival
import UserTcp.Proofs.Outbound.Flights
import UserTcp.Proofs.Outbound.Sends
import UserTcp.Proofs.Outbound.Settles
import UserTcp.Proofs.Outbound.Journal
import UserTcp.Proofs.Inbound.Takes
import UserTcp.Proofs.Channel.Sound
import UserTcp.Proofs.Channel.Steps
import UserTcp.Proofs.Connection.Calls
import UserTcp.Proofs.Network.Basic
import UserTcp.Proofs.Network.Sound
import UserTcp.Proofs.Channel.Delivery
import UserTcp.Proofs.Network.Delivery
import UserTcp.Proofs.Outbound.Balanced
import UserTcp.Proofs.Inbound.Reaches
import UserTcp.Proofs.Outbound.Progress
import UserTcp.Proofs.Channel.Run
import UserTcp.Proofs.Channel.Round
import UserTcp.Proofs.Channel.Recovery
import UserTcp.Proofs.Inbound.Ends
import UserTcp.Proofs.Connection.Continues
import UserTcp.Proofs.Network.Parting
import UserTcp.Proofs.Connection.Speaks
import UserTcp.Proofs.Connection.Spares
import UserTcp.Proofs.Network.Window
import UserTcp.Proofs.Inbound.Promise
import UserTcp.Proofs.Inbound.Has
import UserTcp.Proofs.Channel.Order
import UserTcp.Proofs.Channel.Calm
import UserTcp.Proofs.Channel.CalmSteps
import UserTcp.Proofs.Network.Queue
import UserTcp.Proofs.Network.Settling
import UserTcp.Proofs.Network.Serene
import UserTcp.Proofs.Network.Patience
import UserTcp.Proofs.Network.Conversation
import UserTcp.Proofs.Network.Completion
import UserTcp.Proofs.Datagram.Headers
import UserTcp.Proofs.Datagram.RoundTrip
import UserTcp.Proofs.Datagram.Truncation
import UserTcp.Proofs.Connection.Events
import UserTcp.Proofs.Connection.Silence
import UserTcp.Proofs.Connection.Surrender
import UserTcp.Proofs.Link.Watched
import UserTcp.Proofs.Socket.Offers
import UserTcp.Proofs.Outbound.Portions
import UserTcp.Proofs.Socket.Relay
import UserTcp.Proofs.Socket.Refines
import UserTcp.Proofs.Connection.Answers
import UserTcp.Proofs.Outbound.Sated
import UserTcp.Proofs.Connection.Wakeful
import UserTcp.Proofs.Socket.Wakeful
import UserTcp.Proofs.Connection.Unheard
import UserTcp.Proofs.Socket.Listening
import UserTcp.Proofs.Connection.Bounded
import UserTcp.Proofs.Connection.Opening
import UserTcp.Proofs.Network.Encodable
import UserTcp.Proofs.Outbound.Cumulative
import UserTcp.Proofs.Outbound.Timing
import UserTcp.Proofs.Pipe.Passes
import UserTcp.Proofs.Inbound.Entering
import UserTcp.Proofs.Socket.Copies
import UserTcp.Proofs.Socket.Written
import UserTcp.Proofs.SeqNo.Nearest
import UserTcp.Proofs.Connection.Clock
import UserTcp.Proofs.Socket.Reports
import UserTcp.Proofs.Pipe.Fifo
import UserTcp.Proofs.Datagram.Checks
import UserTcp.Proofs.Reassembly.Merging
