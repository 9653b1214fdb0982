import UserTcp.Reassembly.Basic
import UserTcp.Segment.Basic

namespace UserTcp

-- The receiving half of a connection. It knows nothing of the other side's sequence
-- numbers until a SYN comes.
structure Inbound where
  reassembly : Reassembly
  initial : Option SeqNo
  deriving DecidableEq

namespace Inbound

def ofCapacity (capacity : Nat) : Inbound where
  reassembly := Reassembly.ofOutput (Pipe.empty capacity)
  initial := none

def stream (inbound : Inbound) : Pipe :=
  inbound.reassembly.output

def mapStream (inbound : Inbound) (change : Pipe → Pipe) : Inbound :=
  { inbound with
    reassembly := { inbound.reassembly with output := change inbound.reassembly.output } }

-- Where the payload of a chunk begins in the stream. The SYN lies before the stream:
-- a chunk without SYN that sits there has no such place.
def streamIndex? (chunk : Chunk) (initial : SeqNo) (pushed : Nat) : Option Nat :=
  match chunk.seqno.nearestIndex initial (pushed + 1) + chunk.syn.toNat with
  | 0 => none
  | index + 1 => some index

-- Takes a chunk in, once the initial sequence number is known.
def place (inbound : Inbound) (chunk : Chunk) (initial : SeqNo) : Inbound :=
  match streamIndex? chunk initial inbound.stream.pushed with
  | none => inbound
  | some index =>
      { inbound with
        reassembly := inbound.reassembly.insert ⟨index, chunk.payload⟩ chunk.fin }

def receive (inbound : Inbound) (chunk : Chunk) : Inbound :=
  if chunk.rst then inbound.mapStream Pipe.fail
  else
    match inbound.initial with
    | some initial => inbound.place chunk initial
    | none =>
        if chunk.syn then
          { inbound with initial := some chunk.seqno }.place chunk chunk.seqno
        else inbound

-- The number of sequence numbers received without a gap: the SYN, the bytes, the FIN.
def received (inbound : Inbound) : Nat :=
  1 + inbound.stream.pushed + inbound.stream.closed.toNat

-- What to tell the other side. The window has 16 bits on the wire.
def feedback (inbound : Inbound) : Feedback where
  ackno := inbound.initial.map (SeqNo.ofIndex inbound.received)
  window := UInt16.ofNat (min inbound.stream.free 65535)
  rst := inbound.stream.failed

end Inbound

end UserTcp
