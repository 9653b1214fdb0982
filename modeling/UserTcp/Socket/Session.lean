import UserTcp.Socket.Basic

namespace UserTcp

inductive Arrival where
  | datagram (bytes : List UInt8)
  | nothing
  | failed (reason : String)
  deriving DecidableEq

-- What happens while the reader waits: the clock moves on, then the link answers.
structure LinkEvent where
  microseconds : Nat
  arrival : Arrival
  deriving DecidableEq

-- Where the stream from the peer is copied to. It takes a write whole or not at all.
structure Sink where
  written : List UInt8
  limit : Option Nat
  deriving DecidableEq

namespace Sink

def ofLimit (limit : Option Nat) : Sink where
  written := []
  limit := limit

def fits (sink : Sink) (bytes : List UInt8) : Bool :=
  match sink.limit with
  | none => true
  | some limit => decide (sink.written.length + bytes.length ≤ limit)

def write (sink : Sink) (bytes : List UInt8) : Sink × Except Failure Unit :=
  if bytes = [] then (sink, .ok ())
  else if sink.fits bytes then ({ sink with written := sink.written ++ bytes }, .ok ())
  else (sink, .error .sinkFull)

end Sink

structure Session (link : Type) where
  socket : Socket
  carrier : link
  now : Nat
  sink : Sink

namespace Session

variable {link : Type} [Link link]

def absorb (session : Session link) (response : Response link Unit) :
    Session link × Except Failure Unit :=
  ({ session with socket := response.socket, carrier := response.carrier }, response.result)

def take (session : Session link) : Arrival → Session link × Except Failure Unit
  | .datagram bytes => session.absorb (session.socket.deliver session.carrier bytes)
  | .nothing => (session, .ok ())
  | .failed reason => (session, .error (.link reason))

def catchUp (session : Session link) : Session link × Except Failure Unit :=
  session.absorb (session.socket.catchUp session.carrier session.now)

def copy (session : Session link) : Session link × Except Failure Unit :=
  let taken := session.socket.read
  let written := session.sink.write taken.1
  ({ session with socket := taken.2, sink := written.1 }, written.2)

-- Goes on with the next part of a turn unless the part before failed.
def andThen (part : Session link × Except Failure Unit)
    (next : Session link → Session link × Except Failure Unit) :
    Session link × Except Failure Unit :=
  match part.2 with
  | .error failure => (part.1, .error failure)
  | .ok () => next part.1

-- One turn: the clock moves, the link is read, time is reported, the stream is copied.
def turn (session : Session link) (event : LinkEvent) : Session link × Except Failure Unit :=
  let moved := { session with now := session.now + event.microseconds }
  andThen (andThen (moved.take event.arrival) catchUp) copy

-- Runs a socket until it is no longer active or a turn fails, and tells which events were
-- not used. A link that has run out of events fails.
def run (session : Session link) : List LinkEvent →
    Session link × Except Failure Unit × List LinkEvent
  | [] =>
      match session.socket.active with
      | .error cause => (session, .error (.overflow cause), [])
      | .ok true => (session, .error .linkEnded, [])
      | .ok false => (session, .ok (), [])
  | event :: rest =>
      match session.socket.active with
      | .error cause => (session, .error (.overflow cause), event :: rest)
      | .ok true =>
          match session.turn event with
          | (stopped, .error failure) => (stopped, .error failure, rest)
          | (next, .ok ()) => next.run rest
      | .ok false => (session, .ok (), event :: rest)

end Session

end UserTcp
