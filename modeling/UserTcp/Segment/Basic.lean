import UserTcp.SeqNo.Basic

namespace UserTcp

-- The half of a segment that speaks for the sending direction.
structure Chunk where
  seqno : SeqNo
  syn : Bool
  payload : List UInt8
  fin : Bool
  rst : Bool
  deriving DecidableEq

-- The half of a segment that answers the other direction: the next sequence number
-- wanted, once there is one, and how many more will be accepted from there.
structure Feedback where
  ackno : Option SeqNo
  window : UInt16
  rst : Bool
  deriving DecidableEq

structure Segment where
  chunk : Chunk
  feedback : Feedback
  deriving DecidableEq

-- How many sequence numbers a chunk occupies. SYN and FIN take one each, RST none.
def Chunk.span (chunk : Chunk) : Nat :=
  chunk.payload.length + chunk.syn.toNat + chunk.fin.toNat

-- A reset in either half resets the connection.
def Segment.rst (segment : Segment) : Bool :=
  segment.chunk.rst || segment.feedback.rst

end UserTcp
