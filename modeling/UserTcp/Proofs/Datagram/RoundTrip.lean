import UserTcp.Proofs.Datagram.Fields
import UserTcp.Proofs.Datagram.Headers

namespace UserTcp

theorem Segment.carried_of_rst {segment : Segment}
    (hrst : segment.chunk.rst = segment.feedback.rst) : segment.carried = segment := by
  obtain ⟨⟨seqno, syn, payload, fin, rst⟩, ⟨ackno, window, feedbackRst⟩⟩ := segment
  cases hrst
  simp only [carried, Segment.rst, Bool.or_self]

namespace Datagram

-- What is accepted has both headers, and they say all about the segment but its payload.
theorem decode_eq_ok_iff (bytes : List UInt8) (flow : Flow) (segment : Segment) :
    decode bytes = .ok (flow, segment) ↔ ∃ ipv4 tcp, Ipv4Header.read bytes = .ok ipv4 ∧
      ipv4.protocol = tcpProtocol ∧ TcpHeader.read (bytes.drop ipv4.headerLength) = .ok tcp ∧
      flow = flowOf ipv4 tcp ∧
      segment = segmentOf tcp
        (payload bytes (ipv4.headerLength + tcp.headerLength) ipv4.totalLength) := by
  constructor
  · intro hdecode
    unfold decode at hdecode
    split at hdecode
    · nomatch hdecode
    · rename_i ipv4 hipv4
      split at hdecode
      · nomatch hdecode
      · rename_i hprotocol
        split at hdecode
        · nomatch hdecode
        · rename_i tcp htcp
          cases hdecode
          exact ⟨ipv4, tcp, hipv4, Classical.not_not.mp hprotocol, htcp, rfl, rfl⟩
  · rintro ⟨ipv4, tcp, hipv4, hprotocol, htcp, rfl, rfl⟩
    simp only [decode, hipv4, hprotocol, htcp, ne_eq, not_true_eq_false, ↓reduceIte]

theorem length_payload_le (bytes : List UInt8) (headers totalLength : Nat) :
    (payload bytes headers totalLength).length ≤ totalLength - headers := by
  rw [payload, List.length_drop, List.length_take]
  omega

-- The total length bounds the payload to what can be sent, options or not.
theorem length_le_of_decode {bytes : List UInt8} {flow : Flow} {segment : Segment}
    (hdecode : decode bytes = .ok (flow, segment)) : segment.chunk.payload.length ≤ 65495 := by
  obtain ⟨ipv4, tcp, hipv4, -, htcp, -, rfl⟩ := (decode_eq_ok_iff _ _ _).mp hdecode
  obtain ⟨rfl, hipv4Least, -⟩ := Ipv4Header.eq_of_read hipv4
  obtain ⟨-, htcpLeast, -⟩ := TcpHeader.eq_of_read htcp
  have htotal : (ipv4Fields bytes).totalLength < 65536 := UInt16.toNat_lt _
  have hpayload := length_payload_le bytes ((ipv4Fields bytes).headerLength + tcp.headerLength)
    (ipv4Fields bytes).totalLength
  change (payload bytes _ _).length ≤ 65495
  omega

theorem carried_of_decode {bytes : List UInt8} {flow : Flow} {segment : Segment}
    (hdecode : decode bytes = .ok (flow, segment)) : segment.carried = segment := by
  obtain ⟨ipv4, tcp, -, -, -, -, rfl⟩ := (decode_eq_ok_iff _ _ _).mp hdecode
  exact Segment.carried_of_rst rfl

-- A segment that fits has a datagram, and what trails the datagram is not read.
theorem exists_encode (flow : Flow) (segment : Segment)
    (hfits : segment.chunk.payload.length ≤ 65495) :
    ∃ bytes, encode flow segment = .ok bytes ∧
      (∀ rest, decode (bytes ++ rest) = .ok (flow, segment.carried)) ∧
      bytes.drop minHeaderLength = tcpHeader flow segment ++ segment.chunk.payload := by
  refine ⟨_, (encode_eq_ok_iff flow segment _).mpr ⟨hfits, rfl⟩, ?_, List.drop_left' rfl⟩
  intro rest
  rw [List.append_assoc, List.append_assoc, decode_headers flow segment _ hfits, List.take_left]
  rfl

theorem round_trips_both_ways :
    (∀ (flow : Flow) (segment : Segment), segment.chunk.payload.length ≤ 65495 →
      ∃ bytes tcp, encode flow segment = .ok bytes ∧
        (∀ rest, decode (bytes ++ rest) = .ok (flow, segment.carried)) ∧
        TcpHeader.read (bytes.drop minHeaderLength) = .ok tcp ∧
        tcp.flags.toByte = segment.flags.toByte) ∧
    ∀ (bytes : List UInt8) (flow : Flow) (segment : Segment),
      decode bytes = .ok (flow, segment) →
        ∃ again, encode flow segment = .ok again ∧ decode again = .ok (flow, segment) := by
  constructor
  · intro flow segment hfits
    obtain ⟨bytes, hencode, hdecode, hcontent⟩ := exists_encode flow segment hfits
    have hread := read_tcpHeader flow segment segment.chunk.payload
    rw [← hcontent] at hread
    exact ⟨bytes, _, hencode, hdecode, hread, congrArg Flags.toByte (flags_headerOf flow segment)⟩
  · intro bytes flow segment haccepted
    obtain ⟨again, hencode, hdecode, -⟩ :=
      exists_encode flow segment (length_le_of_decode haccepted)
    have hagain := hdecode []
    rw [List.append_nil, carried_of_decode haccepted] at hagain
    exact ⟨again, hencode, hagain⟩

-- A reset of one half without an acknowledgment goes out. A datagram comes in whose headers
-- have options and whose total length is more than there is.
theorem round_trips_both_ways_oddly :
    let flow : Flow := ⟨⟨⟨10, 0, 0, 2⟩, 40000⟩, ⟨⟨10, 0, 0, 1⟩, 80⟩⟩
    let segment : Segment := ⟨⟨⟨4294967295⟩, false, [7, 8], true, false⟩, ⟨none, 500, true⟩⟩
    let foreign : List UInt8 :=
      [0x46, 0, 0xff, 0xff, 0, 1, 0, 0, 9, 6, 0, 0, 10, 0, 0, 1, 10, 0, 0, 2, 1, 1, 1, 1,
        0, 80, 156, 64, 0, 0, 0, 9, 0, 0, 0, 3, 0x60, 0xf2, 1, 0, 0, 0, 0, 0, 1, 1, 1, 1, 5]
    let answer : Segment := ⟨⟨⟨9⟩, true, [5], false, false⟩, ⟨some ⟨3⟩, 256, false⟩⟩
    (segment.chunk.payload.length ≤ 65495 ∧
      ∃ bytes tcp, encode flow segment = .ok bytes ∧
        (∀ rest, decode (bytes ++ rest) = .ok (flow, segment.carried)) ∧
        TcpHeader.read (bytes.drop minHeaderLength) = .ok tcp ∧
        tcp.flags.toByte = segment.flags.toByte) ∧
    decode foreign = .ok (flow.reverse, answer) ∧
      ∃ again, encode flow.reverse answer = .ok again ∧
        decode again = .ok (flow.reverse, answer) := by
  intro flow segment foreign answer
  have hforeign : decode foreign = .ok (flow.reverse, answer) := by cbv
  exact ⟨⟨by decide, round_trips_both_ways.1 flow segment (by decide)⟩, hforeign,
    round_trips_both_ways.2 foreign flow.reverse answer hforeign⟩

end Datagram

end UserTcp
