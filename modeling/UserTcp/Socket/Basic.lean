import UserTcp.Connection.Basic
import UserTcp.Link.Basic

namespace UserTcp

-- A connection that is bound to a flow and speaks through a link. Its clock counts
-- microseconds; the connection is told of whole milliseconds.
structure Socket where
  -- The direction from this side to the peer.
  flow : Flow
  connection : Connection
  -- Up to here the connection knows of the time that has passed.
  reported : Nat
  deriving DecidableEq

structure Response (link result : Type) where
  socket : Socket
  carrier : link
  result : Except Failure result

namespace Socket

-- The longest datagram that is read. The rest of a longer one is cut off.
def datagramLimit : Nat := 1504

def ofSettings (id : Nat) (flow : Flow) (settings : Settings) (now : Nat) : Socket where
  flow := flow
  connection := Connection.ofSettings id settings
  reported := now

def active (socket : Socket) : Except Overflow Bool :=
  socket.connection.active

variable {link : Type} [Link link]

-- The connection moves on whatever becomes of the segments that it sends. A call on it that
-- overflow cuts short changes nothing and sends nothing.
def emit (socket : Socket) (carrier : link) :
    Except Overflow (Connection × List Segment) → Response link Unit
  | .error cause => ⟨socket, carrier, .error (.overflow cause)⟩
  | .ok step =>
      let sent := transmit socket.flow carrier step.2
      ⟨{ socket with connection := step.1 }, sent.1, sent.2⟩

theorem connection_emit (socket : Socket) (carrier : link)
    (call : Except Overflow (Connection × List Segment)) :
    (socket.emit carrier call).socket.connection = (socket.connection.leave call).1 := by
  cases call <;> rfl

def send (socket : Socket) (carrier : link) : Response link Unit :=
  socket.emit carrier (.ok socket.connection.send)

def connect (socket : Socket) (carrier : link) : Response link Unit :=
  socket.send carrier

-- How many of some bytes the stream to the peer has room for.
def writable (socket : Socket) (bytes : List UInt8) : Nat :=
  min bytes.length socket.connection.outbound.input.free

-- Queues what there is room for and sends what the window allows. The result is the
-- number of bytes that there was room for.
def write (socket : Socket) (carrier : link) (bytes : List UInt8) : Response link Nat :=
  let count := socket.writable bytes
  let connection := socket.connection.mapOutgoing fun input => input.push (bytes.take count)
  let response := { socket with connection := connection }.send carrier
  { response with result := response.result.map fun _ => count }

-- Ends the stream to the peer. The FIN goes out once the bytes before it have.
def close (socket : Socket) (carrier : link) : Response link Unit :=
  { socket with connection := socket.connection.mapOutgoing Pipe.close }.send carrier

def read (socket : Socket) : List UInt8 × Socket :=
  let stream := socket.connection.inbound.stream
  let taken := stream.read stream.buffered
  (taken.1, { socket with connection := socket.connection.mapIncoming fun _ => taken.2 })

-- Takes a datagram in. One that holds no segment or belongs to another flow is ignored.
def handle (socket : Socket) (carrier : link) (datagram : List UInt8) : Response link Unit :=
  match Datagram.decode datagram with
  | .error _ => ⟨socket, carrier, .ok ()⟩
  | .ok (flow, segment) =>
      if flow = socket.flow.reverse then socket.emit carrier (socket.connection.receive? segment)
      else ⟨socket, carrier, .ok ()⟩

def deliver (socket : Socket) (carrier : link) (datagram : List UInt8) : Response link Unit :=
  socket.handle carrier (datagram.take datagramLimit)

-- The whole milliseconds that the connection does not know of yet.
def unreported (socket : Socket) (now : Nat) : Millis :=
  UInt64.ofNat ((now - socket.reported) / 1000)

-- Tells the connection of the time that has passed. The part of a millisecond that is left
-- over counts for the next call.
def catchUp (socket : Socket) (carrier : link) (now : Nat) : Response link Unit :=
  let time := socket.unreported now
  if time = 0 then ⟨socket, carrier, .ok ()⟩
  else
    { socket with reported := socket.reported + time.toNat * 1000 }.emit carrier
      (socket.connection.elapse? time)

end Socket

end UserTcp
