import UserTcp.Connection.Basic

namespace UserTcp

-- What an observer is told about a connection.
structure Summary where
  id : Nat
  next : Nat
  inFlight : Nat
  timeout : Millis
  retransmissions : Nat
  queued : Nat
  received : Nat
  sent : Nat
  active : Bool
  deriving DecidableEq

namespace Connection

-- Whether the connection is active is part of it, so there is none when that cannot be told.
def summary (connection : Connection) : Except Overflow Summary :=
  connection.active.map fun active => {
    id := connection.id
    next := connection.outbound.next
    inFlight := connection.outbound.inFlight
    timeout := connection.outbound.alarm.timeout
    retransmissions := connection.outbound.retransmissions
    queued := connection.outbound.input.buffered
    received := connection.inbound.stream.pushed
    sent := connection.outbound.input.popped
    active := active }

-- The fields of the printed form, in order.
def printedFields (connection : Connection) : List (String × String) := [
  ("id", toString connection.id),
  ("next_seqno", toString connection.outbound.next),
  ("in_flight", toString connection.outbound.inFlight),
  ("rto_ms", toString connection.outbound.alarm.timeout.toNat),
  ("outbound.len()", toString connection.outbound.input.buffered),
  ("inbound.len()", toString connection.inbound.stream.buffered),
  ("pending", toString connection.inbound.reassembly.pending),
  ("linger", if connection.lingers then "true" else "false")]

def render (connection : Connection) : String :=
  let fields := connection.printedFields.map fun field => field.1 ++ ": " ++ field.2
  "Connection \x7b " ++ String.intercalate ", " fields ++ " \x7d"

end Connection

end UserTcp
