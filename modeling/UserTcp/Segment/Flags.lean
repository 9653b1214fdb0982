import UserTcp.Segment.Basic

namespace UserTcp

structure Flags where
  fin : Bool
  syn : Bool
  rst : Bool
  psh : Bool
  ack : Bool
  deriving DecidableEq

namespace Flags

def none : Flags where
  fin := false
  syn := false
  rst := false
  psh := false
  ack := false

def finBit : UInt8 := 1
def synBit : UInt8 := 2
def rstBit : UInt8 := 4
def pshBit : UInt8 := 8
def ackBit : UInt8 := 16

private def place (flag : Bool) (bit : UInt8) : UInt8 :=
  if flag then bit else 0

def toByte (flags : Flags) : UInt8 :=
  place flags.fin finBit ||| place flags.syn synBit ||| place flags.rst rstBit |||
    place flags.psh pshBit ||| place flags.ack ackBit

-- The three upper bits are ignored.
def ofByte (byte : UInt8) : Flags where
  fin := byte &&& finBit != 0
  syn := byte &&& synBit != 0
  rst := byte &&& rstBit != 0
  psh := byte &&& pshBit != 0
  ack := byte &&& ackBit != 0

-- One letter per flag in the order of the handshake, a dash where it is off.
def render (flags : Flags) : String :=
  String.ofList [
    if flags.syn then 'S' else '-',
    if flags.ack then 'A' else '-',
    if flags.fin then 'F' else '-',
    if flags.rst then 'R' else '-',
    if flags.psh then 'P' else '-']

theorem ofByte_toByte (flags : Flags) : ofByte flags.toByte = flags := by
  obtain ⟨fin, syn, rst, psh, ack⟩ := flags
  cases fin <;> cases syn <;> cases rst <;> cases psh <;> cases ack <;> decide

end Flags

-- The flags that go with a segment. Every segment with payload is pushed.
def Segment.flags (segment : Segment) : Flags where
  fin := segment.chunk.fin
  syn := segment.chunk.syn
  rst := segment.rst
  psh := !segment.chunk.payload.isEmpty
  ack := segment.feedback.ackno.isSome

end UserTcp
