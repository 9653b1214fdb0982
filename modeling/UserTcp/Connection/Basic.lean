import UserTcp.Inbound
import UserTcp.Outbound
import UserTcp.Settings

namespace UserTcp

-- One side of a connection: a sending half for the stream to the peer, a receiving half
-- for the stream from it. Every segment that leaves carries the news of both halves.
structure Connection where
  id : Nat
  settings : Settings
  outbound : Outbound
  inbound : Inbound
  -- The peer is to get an acknowledgment.
  ackOwed : Bool
  -- Whether to keep answering for a while after both streams are done.
  lingers : Bool
  -- How much time has passed, and how much had passed when the last segment came.
  time : Millis
  heardAt : Millis
  deriving DecidableEq

namespace Connection

-- A side that lingers does so for this many timeouts after the last segment.
def lingerTimeouts : Millis := 10

def ofSettings (id : Nat) (settings : Settings) : Connection where
  id := id
  settings := settings
  outbound := Outbound.ofInput (Pipe.empty settings.capacity) settings.initial settings.timeout
    settings.payloadLimit
  inbound := Inbound.ofCapacity settings.capacity
  ackOwed := false
  lingers := true
  time := 0
  heardAt := 0

def mapOutgoing (connection : Connection) (change : Pipe → Pipe) : Connection :=
  { connection with
    outbound := { connection.outbound with input := change connection.outbound.input } }

def mapIncoming (connection : Connection) (change : Pipe → Pipe) : Connection :=
  { connection with inbound := connection.inbound.mapStream change }

-- A reset breaks both streams, and one broken stream breaks the connection.
def failed (connection : Connection) : Bool :=
  connection.outbound.input.failed || connection.inbound.stream.failed

-- The time at which a lingering side falls silent, when it is one that the clock can show.
def lingerEnd (connection : Connection) : Except Overflow Millis := do
  let period ← Millis.mulChecked lingerTimeouts connection.settings.timeout
  Millis.addChecked connection.heardAt period

def lingering (connection : Connection) : Except Overflow Bool :=
  if connection.lingers then
    connection.lingerEnd.map fun limit => decide (connection.time < limit)
  else .ok false

-- False after a reset, and once both streams are done and there is no more lingering. A side
-- that lingers asks its clock in any case, and fails with it.
def active (connection : Connection) : Except Overflow Bool :=
  connection.lingering.map fun lingering =>
    !connection.failed &&
      (!connection.outbound.finished || !connection.inbound.stream.closed || lingering)

def segment (connection : Connection) (chunk : Chunk) : Segment where
  chunk := chunk
  feedback := connection.inbound.feedback

-- Sends what the stream and the window allow. When that is nothing and an acknowledgment
-- is owed, a segment of its own carries it.
def send (connection : Connection) : Connection × List Segment :=
  if connection.failed then (connection, [])
  else
    let filled := connection.outbound.send
    let next := { connection with outbound := filled.1, ackOwed := false }
    if filled.2.isEmpty && connection.ackOwed then
      (next, [next.segment next.outbound.emptyChunk])
    else (next, filled.2.map next.segment)

-- Whether a segment asks for an acknowledgment: it takes up sequence numbers, or it is an
-- empty one right before the next number wanted, to see whether this side is still there.
def asksAck (connection : Connection) (chunk : Chunk) : Bool :=
  decide (0 < chunk.span) || connection.inbound.feedback.ackno == some (chunk.seqno.advance 1)

def feed (connection : Connection) (segment : Segment) : Connection :=
  { connection with
    heardAt := connection.time
    ackOwed := connection.ackOwed || connection.asksAck segment.chunk
    inbound := connection.inbound.receive segment.chunk
    outbound := connection.outbound.receive segment.feedback }

-- When the peer finishes first there is nothing to wait for at the end.
def noteClose (connection : Connection) : Connection :=
  if connection.inbound.stream.closed && !connection.outbound.finSent then
    { connection with lingers := false }
  else connection

-- What an active connection does with a segment.
def heed (connection : Connection) (segment : Segment) : Connection × List Segment :=
  let fed := connection.feed segment
  if fed.failed then (fed, []) else fed.noteClose.send

def receive? (connection : Connection) (segment : Segment) :
    Except Overflow (Connection × List Segment) :=
  connection.active.map fun active =>
    if active then connection.heed segment else (connection, [])

-- What a call leaves behind. One that overflow has cut short changes nothing and sends nothing.
def leave (connection : Connection) (call : Except Overflow (Connection × List Segment)) :
    Connection × List Segment :=
  call.toOption.getD (connection, [])

def receive (connection : Connection) (segment : Segment) : Connection × List Segment :=
  connection.leave (connection.receive? segment)

def abort (connection : Connection) : Connection :=
  (connection.mapOutgoing Pipe.fail).mapIncoming Pipe.fail

def resetSegment (connection : Connection) : Segment :=
  connection.segment { connection.outbound.emptyChunk with rst := true }

-- What an active connection does when some time has passed: a chunk may be due again, and one
-- that has been due too often is given up.
def wait (connection : Connection) (time : Millis) : Connection × List Segment :=
  let elapsed := connection.outbound.elapse time
  let next := { connection with outbound := elapsed.1 }
  let sent := elapsed.2.toList.map next.segment
  if connection.settings.retransmissionLimit < next.outbound.retransmissions then
    (next.abort, sent ++ [next.resetSegment])
  else (next, sent)

def elapse? (connection : Connection) (time : Millis) :
    Except Overflow (Connection × List Segment) := do
  if ← connection.active then
    let total ← Millis.addChecked connection.time time
    return { connection with time := total }.wait time
  else return (connection, [])

def elapse (connection : Connection) (time : Millis) : Connection × List Segment :=
  connection.leave (connection.elapse? time)

end Connection

end UserTcp
