import UserTcp.Proofs.Datagram.Headers
import UserTcp.Socket.Basic

namespace UserTcp

theorem Ipv4Header.read_short (bytes : List UInt8) (hshort : bytes.length < 20) :
    read bytes = .error (.tooShort 20 bytes.length) := by
  rw [read, dif_pos hshort]

theorem TcpHeader.read_short (bytes : List UInt8) (hshort : bytes.length < 20) :
    read bytes = .error (.tooShort 20 bytes.length) := by
  rw [read, dif_pos hshort]

namespace Datagram

variable {flow : Flow} {segment : Segment} {bytes : List UInt8} {count : Nat}

theorem decode_cut_ipv4Header (hencode : encode flow segment = .ok bytes) (hcount : count < 20) :
    decode (bytes.take count) = .error (.ipv4 (.tooShort 20 count)) := by
  obtain ⟨-, rfl⟩ := (encode_eq_ok_iff flow segment bytes).mp hencode
  have hlength : ((ipv4Header flow (20 + segment.chunk.payload.length) ++
      (tcpHeader flow segment ++ segment.chunk.payload)).take count).length = count := by
    apply List.length_take_of_le
    rw [List.length_append, length_ipv4Header]
    omega
  rw [decode, Ipv4Header.read_short _ (by omega), hlength]

theorem decode_cut_tcpHeader (hencode : encode flow segment = .ok bytes) (hcount : count < 40)
    (hipv4 : 20 ≤ count) :
    decode (bytes.take count) = .error (.tcp (.tooShort 20 (count - 20))) := by
  obtain ⟨hfits, rfl⟩ := (encode_eq_ok_iff flow segment bytes).mp hencode
  have hlength : ((tcpHeader flow segment ++ segment.chunk.payload).take (count - 20)).length =
      count - 20 := by
    apply List.length_take_of_le
    rw [List.length_append, length_tcpHeader]
    omega
  rw [List.take_append, length_ipv4Header, List.take_of_length_le hipv4,
    decode_ipv4Header flow _ (content_le_limit hfits), TcpHeader.read_short _ (by omega), hlength]

-- Behind the headers a cut goes unnoticed. The total length is not held against what is there.
theorem decode_cut_payload (hencode : encode flow segment = .ok bytes) (hheaders : 40 ≤ count) :
    decode (bytes.take count) =
      .ok (flow, (segment.withPayload (segment.chunk.payload.take (count - 40))).carried) := by
  obtain ⟨hfits, rfl⟩ := (encode_eq_ok_iff flow segment bytes).mp hencode
  have hipv4 : (ipv4Header flow (20 + segment.chunk.payload.length)).length ≤ count := by
    rw [length_ipv4Header]
    omega
  have htcp : (tcpHeader flow segment).length ≤ count - 20 := by
    rw [length_tcpHeader]
    omega
  rw [List.take_append, List.take_of_length_le hipv4, length_ipv4Header, List.take_append,
    List.take_of_length_le htcp, length_tcpHeader, Nat.sub_sub, decode_headers flow segment _ hfits,
    List.take_of_length_le (List.length_take_le' _ _)]

-- What is left of a datagram is an error where a header is cut. Behind the headers it is the
-- segment with less payload and is taken in as such, whatever else the segment says.
theorem notices_only_cut_headers (flow : Flow) (segment : Segment) (bytes : List UInt8)
    (hencode : encode flow segment = .ok bytes) :
    (∀ count, decode (bytes.take count) =
      if count < 20 then .error (.ipv4 (.tooShort 20 count))
      else if count < 40 then .error (.tcp (.tooShort 20 (count - 20)))
      else .ok (flow, (segment.withPayload (segment.chunk.payload.take (count - 40))).carried)) ∧
    ∀ (link : Type) [Link link] (socket : Socket) (carrier : link),
      socket.deliver carrier bytes =
        if flow = socket.flow.reverse then
          socket.emit carrier (socket.connection.receive?
            (segment.withPayload (segment.chunk.payload.take 1464)).carried)
        else ⟨socket, carrier, .ok ()⟩ := by
  constructor
  · intro count
    split
    · rename_i hipv4
      exact decode_cut_ipv4Header hencode hipv4
    · rename_i hipv4
      split
      · rename_i htcp
        exact decode_cut_tcpHeader hencode htcp (by omega)
      · rename_i htcp
        exact decode_cut_payload hencode (by omega)
  · intro link _ socket carrier
    have hcut : decode (bytes.take Socket.datagramLimit) =
        .ok (flow, (segment.withPayload (segment.chunk.payload.take 1464)).carried) :=
      decode_cut_payload hencode (by decide)
    rw [Socket.deliver, Socket.handle, hcut]

theorem notices_only_cut_headers_short :
    let flow : Flow := ⟨⟨⟨10, 0, 0, 2⟩, 40000⟩, ⟨⟨10, 0, 0, 1⟩, 80⟩⟩
    let segment : Segment := ⟨⟨⟨1⟩, false, [7, 8], true, false⟩, ⟨some ⟨1⟩, 64000, false⟩⟩
    let bytes := ipv4Header flow 22 ++ tcpContent flow segment
    encode flow segment = .ok bytes ∧
      decode (bytes.take 19) = .error (.ipv4 (.tooShort 20 19)) ∧
      decode (bytes.take 39) = .error (.tcp (.tooShort 20 19)) ∧
      decode (bytes.take 41) =
        .ok (flow, ⟨⟨⟨1⟩, false, [7], true, false⟩, ⟨some ⟨1⟩, 64000, false⟩⟩) := by
  intro flow segment bytes
  have hcuts := (notices_only_cut_headers flow segment bytes rfl).1
  exact ⟨rfl, hcuts 19, hcuts 39, hcuts 41⟩

-- One byte more than is read: the segment with the FIN is taken for one that ends earlier.
theorem takes_cut_for_end :
    let flow : Flow := ⟨⟨⟨10, 0, 0, 2⟩, 40000⟩, ⟨⟨10, 0, 0, 1⟩, 80⟩⟩
    let segment : Segment :=
      ⟨⟨⟨1⟩, false, List.replicate 1465 7, true, false⟩, ⟨some ⟨1⟩, 64000, false⟩⟩
    let shorter : Segment :=
      ⟨⟨⟨1⟩, false, List.replicate 1464 7, true, false⟩, ⟨some ⟨1⟩, 64000, false⟩⟩
    ∃ bytes, encode flow segment = .ok bytes ∧ bytes.length = Socket.datagramLimit + 1 ∧
      decode (bytes.take Socket.datagramLimit) = .ok (flow, shorter) := by
  intro flow segment shorter
  have hlength : segment.chunk.payload.length = 1465 := List.length_replicate
  have htake : segment.chunk.payload.take 1464 = shorter.chunk.payload := List.take_replicate
  obtain ⟨bytes, hencode⟩ : ∃ bytes, encode flow segment = .ok bytes :=
    ⟨_, (encode_eq_ok_iff flow segment _).mpr ⟨by omega, rfl⟩⟩
  refine ⟨bytes, hencode, ?_, ?_⟩
  · obtain ⟨-, rfl⟩ := (encode_eq_ok_iff flow segment bytes).mp hencode
    rw [List.length_append, List.length_append, length_ipv4Header, length_tcpHeader, hlength]
    rfl
  · rw [decode_cut_payload hencode (by decide)]
    change Except.ok (flow, (segment.withPayload (segment.chunk.payload.take 1464)).carried) = _
    rw [htake]
    rfl

end Datagram

end UserTcp
