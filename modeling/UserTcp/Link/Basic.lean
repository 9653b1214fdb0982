import UserTcp.Datagram.Codec
import UserTcp.Millis

namespace UserTcp

-- How a link answers when it is offered a datagram. A busy link has not taken it.
inductive SendOutcome where
  | accepted
  | busy
  | failed (reason : String)
  deriving DecidableEq

class Link (link : Type) where
  send : link → List UInt8 → link × SendOutcome

-- Why a call on a socket failed: the link refused, it has nothing more to say, there is
-- nowhere to copy the stream to, a segment fits no datagram, or a time fits no clock.
inductive Failure where
  | link (reason : String)
  | linkEnded
  | sinkFull
  | datagram (error : DatagramError)
  | overflow (cause : Overflow)
  deriving DecidableEq

def Failure.message : Failure → String
  | .link reason => "device I/O failed: " ++ reason
  | .linkEnded => "device I/O failed: script exhausted"
  | .sinkFull => "device I/O failed: sink full"
  | .datagram error => error.message
  | .overflow cause => cause.message

-- Sends one segment. That the link is busy counts as a lost datagram, not as a failure.
def transmitOne {link : Type} [Link link] (flow : Flow) (carrier : link) (segment : Segment) :
    link × Except Failure Unit :=
  match Datagram.encode flow segment with
  | .error error => (carrier, .error (.datagram error))
  | .ok packet =>
      match Link.send carrier packet with
      | (carrier, .failed reason) => (carrier, .error (.link reason))
      | (carrier, .busy) => (carrier, .ok ())
      | (carrier, .accepted) => (carrier, .ok ())

def transmit {link : Type} [Link link] (flow : Flow) (carrier : link) :
    List Segment → link × Except Failure Unit
  | [] => (carrier, .ok ())
  | segment :: rest =>
      match transmitOne flow carrier segment with
      | (carrier, .error failure) => (carrier, .error failure)
      | (carrier, .ok ()) => transmit flow carrier rest

end UserTcp
