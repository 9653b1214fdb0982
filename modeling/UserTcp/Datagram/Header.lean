import UserTcp.Datagram.Error
import UserTcp.Datagram.Word
import UserTcp.Flow
import UserTcp.Segment.Flags

namespace UserTcp

-- What the front of a datagram says about the datagram. Options are skipped.
structure Ipv4Header where
  headerLength : Nat
  totalLength : Nat
  protocol : UInt8
  source : Address
  destination : Address
  deriving DecidableEq

-- What stands at the front of a datagram's content. Options are skipped.
@[ext]
structure TcpHeader where
  sourcePort : UInt16
  destinationPort : UInt16
  seqno : SeqNo
  ackno : SeqNo
  headerLength : Nat
  flags : Flags
  window : UInt16
  deriving DecidableEq

open Datagram

def minHeaderLength : Nat := 20

def tcpProtocol : UInt8 := 6

namespace Ipv4Header

-- The checks run in this order: the fixed part is there, the version, a header length
-- that covers the fixed part, all of the header is there. No checksum is verified.
def read (bytes : List UInt8) : Except Ipv4Error Ipv4Header :=
  if h : bytes.length < 20 then .error (.tooShort 20 bytes.length)
  else
    let version := bytes[0].toNat / 16
    let words := bytes[0].toNat % 16
    if version ≠ 4 then .error (.version version)
    else if words < 5 then .error (.headerLength words)
    else if bytes.length < words * 4 then .error (.tooShort (words * 4) bytes.length)
    else .ok {
      headerLength := words * 4
      totalLength := (word16 bytes[2] bytes[3]).toNat
      protocol := bytes[9]
      source := ⟨bytes[12], bytes[13], bytes[14], bytes[15]⟩
      destination := ⟨bytes[16], bytes[17], bytes[18], bytes[19]⟩ }

end Ipv4Header

namespace TcpHeader

-- A header without options and with no flag set.
def plain (flow : Flow) (seqno : SeqNo) (window : UInt16) : TcpHeader where
  sourcePort := flow.source.port
  destinationPort := flow.destination.port
  seqno := seqno
  ackno := ⟨0⟩
  headerLength := minHeaderLength
  flags := Flags.none
  window := window

def setSyn (header : TcpHeader) : TcpHeader :=
  { header with flags := { header.flags with syn := true } }

def setFin (header : TcpHeader) : TcpHeader :=
  { header with flags := { header.flags with fin := true } }

def setRst (header : TcpHeader) : TcpHeader :=
  { header with flags := { header.flags with rst := true } }

def setPsh (header : TcpHeader) : TcpHeader :=
  { header with flags := { header.flags with psh := true } }

-- The flag says that the number counts.
def setAck (header : TcpHeader) (ackno : SeqNo) : TcpHeader :=
  { header with ackno := ackno, flags := { header.flags with ack := true } }

-- The checks run in this order: the fixed part is there, a header length that covers it,
-- all of the header is there. No checksum is verified.
def read (bytes : List UInt8) : Except TcpError TcpHeader :=
  if h : bytes.length < 20 then .error (.tooShort 20 bytes.length)
  else
    let words := bytes[12].toNat / 16
    if words < 5 then .error (.headerLength words)
    else if bytes.length < words * 4 then .error (.tooShort (words * 4) bytes.length)
    else .ok {
      sourcePort := word16 bytes[0] bytes[1]
      destinationPort := word16 bytes[2] bytes[3]
      seqno := ⟨word32 bytes[4] bytes[5] bytes[6] bytes[7]⟩
      ackno := ⟨word32 bytes[8] bytes[9] bytes[10] bytes[11]⟩
      headerLength := words * 4
      flags := Flags.ofByte bytes[13]
      window := word16 bytes[14] bytes[15] }

end TcpHeader

end UserTcp
