import UserTcp.Datagram.Checksum
import UserTcp.Datagram.Header

namespace UserTcp.Datagram

-- The most that can follow an IPv4 header: its total length has 16 bits.
def contentLimit : Nat :=
  65535 - minHeaderLength

def timeToLive : UInt8 := 64

-- A header with its checksum between two parts of it. The field itself counts as zero.
def withChecksum (front back covered : List UInt8) : List UInt8 :=
  front ++ bytes16 (checksum covered) ++ back

-- No options, no identification, no fragments.
def ipv4Header (flow : Flow) (contentLength : Nat) : List UInt8 :=
  let front :=
    [0x45, 0] ++ bytes16 (UInt16.ofNat (minHeaderLength + contentLength)) ++ [0, 0, 0x40, 0] ++
      [timeToLive, tcpProtocol]
  let back := flow.source.address.octets ++ flow.destination.address.octets
  withChecksum front back (front ++ back)

-- What the checksum of a TCP header covers of the IPv4 header.
def pseudoHeader (flow : Flow) (contentLength : Nat) : List UInt8 :=
  flow.source.address.octets ++ flow.destination.address.octets ++
    [0, tcpProtocol] ++ bytes16 (UInt16.ofNat contentLength)

-- The header of a segment. It begins with no flag, and each thing that calls for one sets it.
-- Without an acknowledgment the field for it is zero.
def headerOf (flow : Flow) (segment : Segment) : TcpHeader :=
  let header := TcpHeader.plain flow segment.chunk.seqno segment.feedback.window
  let header := if segment.chunk.syn then header.setSyn else header
  let header := if segment.chunk.fin then header.setFin else header
  let header := if segment.chunk.rst || segment.feedback.rst then header.setRst else header
  let header := if segment.chunk.payload.isEmpty then header else header.setPsh
  match segment.feedback.ackno with
  | none => header
  | some ackno => header.setAck ackno

-- The header and the payload of a segment. There are no options and nothing is urgent.
def tcpContent (flow : Flow) (segment : Segment) : List UInt8 :=
  let payload := segment.chunk.payload
  let header := headerOf flow segment
  let front :=
    bytes16 header.sourcePort ++ bytes16 header.destinationPort ++
      bytes32 header.seqno.raw ++ bytes32 header.ackno.raw ++
      [0x50, header.flags.toByte] ++ bytes16 header.window
  let back := [0, 0] ++ payload
  withChecksum front back
    (pseudoHeader flow (minHeaderLength + payload.length) ++ front ++ back)

def encode (flow : Flow) (segment : Segment) : Except DatagramError (List UInt8) :=
  let contentLength := minHeaderLength + segment.chunk.payload.length
  if contentLimit < contentLength then .error (.tooLong contentLength contentLimit)
  else .ok (ipv4Header flow contentLength ++ tcpContent flow segment)

-- The payload of a datagram: all after the headers, without what the total length leaves
-- out. A total length that stops inside the headers leaves no payload.
def payload (bytes : List UInt8) (headers totalLength : Nat) : List UInt8 :=
  (bytes.take (max headers (min totalLength bytes.length))).drop headers

-- The segment that the headers of a datagram announce. A reset concerns both halves.
def segmentOf (header : TcpHeader) (payload : List UInt8) : Segment where
  chunk := {
    seqno := header.seqno
    syn := header.flags.syn
    payload := payload
    fin := header.flags.fin
    rst := header.flags.rst }
  feedback := {
    ackno := if header.flags.ack then some header.ackno else none
    window := header.window
    rst := header.flags.rst }

def flowOf (ipv4 : Ipv4Header) (tcp : TcpHeader) : Flow where
  source := ⟨ipv4.source, tcp.sourcePort⟩
  destination := ⟨ipv4.destination, tcp.destinationPort⟩

def decode (bytes : List UInt8) : Except DatagramError (Flow × Segment) :=
  match Ipv4Header.read bytes with
  | .error error => .error (.ipv4 error)
  | .ok ipv4 =>
      if ipv4.protocol ≠ tcpProtocol then .error (.notTcp ipv4.protocol)
      else
        match TcpHeader.read (bytes.drop ipv4.headerLength) with
        | .error error => .error (.tcp error)
        | .ok tcp =>
            let headers := ipv4.headerLength + tcp.headerLength
            .ok (flowOf ipv4 tcp, segmentOf tcp (payload bytes headers ipv4.totalLength))

-- A line about a datagram, for a record of traffic.
def describe (bytes : List UInt8) : String :=
  match decode bytes with
  | .error _ => "Unknown"
  | .ok (flow, segment) =>
      let ackno := (segment.feedback.ackno.map SeqNo.raw).getD 0
      flow.render ++ " [" ++ segment.flags.render ++ "] seq=" ++ segment.chunk.seqno.render ++
        " ack=" ++ toString ackno.toNat ++ " len=" ++ toString segment.chunk.payload.length

end UserTcp.Datagram
