import UserTcp.Connection.Basic
import UserTcp.Exchange.Basic
import UserTcp.Link.Tap
import UserTcp.Socket.Basic

namespace UserTcp

-- Two connections exchange segments and report what cut a call short.
instance : Party Connection Segment Overflow where
  receive := fun connection segment =>
    match connection.receive? segment with
    | .error cause => ⟨connection, [], [cause]⟩
    | .ok received => ⟨received.1, received.2, []⟩

structure Station where
  socket : Socket
  tap : Tap
  deriving DecidableEq

namespace Station

-- The datagrams that the last call sent, with an empty record for the next one.
def flush (station : Station) : Station × List (List UInt8) :=
  ({ station with tap := station.tap.clear }, station.tap.record)

end Station

-- Two stations exchange datagrams and report failed calls.
instance : Party Station (List UInt8) Failure where
  receive := fun station datagram =>
    let response := station.socket.deliver station.tap datagram
    let flushed := Station.flush ⟨response.socket, response.carrier⟩
    let reports :=
      match response.result with
      | .error failure => [failure]
      | .ok () => []
    ⟨flushed.1, flushed.2, reports⟩

end UserTcp
