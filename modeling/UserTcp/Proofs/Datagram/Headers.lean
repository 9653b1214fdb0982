import UserTcp.Datagram.Codec

namespace UserTcp

-- A segment as a datagram carries it: a reset in one half is a reset in both.
def Segment.carried (segment : Segment) : Segment where
  chunk := { segment.chunk with rst := segment.rst }
  feedback := { segment.feedback with rst := segment.rst }

def Segment.withPayload (segment : Segment) (payload : List UInt8) : Segment :=
  { segment with chunk := { segment.chunk with payload := payload } }

namespace Datagram

def tcpHeader (flow : Flow) (segment : Segment) : List UInt8 :=
  (tcpContent flow segment).take minHeaderLength

@[simp] theorem length_ipv4Header (flow : Flow) (contentLength : Nat) :
    (ipv4Header flow contentLength).length = 20 := rfl

@[simp] theorem length_tcpHeader (flow : Flow) (segment : Segment) :
    (tcpHeader flow segment).length = 20 := rfl

theorem tcpContent_eq (flow : Flow) (segment : Segment) :
    tcpContent flow segment = tcpHeader flow segment ++ segment.chunk.payload :=
  (List.take_append_drop minHeaderLength (tcpContent flow segment)).symm

-- Whatever follows the headers that were written, they are read as they were written.
theorem read_ipv4Header (flow : Flow) (contentLength : Nat) (hfits : contentLength ≤ contentLimit)
    (rest : List UInt8) :
    Ipv4Header.read (ipv4Header flow contentLength ++ rest) =
      .ok ⟨20, 20 + contentLength, tcpProtocol, flow.source.address,
        flow.destination.address⟩ := by
  have hlength : ¬ (ipv4Header flow contentLength ++ rest).length < 20 := by
    rw [List.length_append, length_ipv4Header]
    omega
  have htotal : (word16 (UInt8.ofNat ((UInt16.ofNat (20 + contentLength)).toNat / 256))
      (UInt8.ofNat (UInt16.ofNat (20 + contentLength)).toNat)).toNat = 20 + contentLength := by
    rw [word16_bytes16, UInt16.toNat_ofNat']
    simp only [contentLimit, minHeaderLength] at hfits
    omega
  have hversion : (ipv4Header flow contentLength ++ rest)[0].toNat / 16 = 4 := by
    change (0x45 : UInt8).toNat / 16 = 4
    decide
  have hwords : (ipv4Header flow contentLength ++ rest)[0].toNat % 16 = 5 := by
    change (0x45 : UInt8).toNat % 16 = 5
    decide
  simp only [Ipv4Header.read, hlength, hversion, hwords, ↓reduceDIte, ne_eq, not_true_eq_false,
    Nat.lt_irrefl, Nat.reduceMul, ↓reduceIte, Except.ok.injEq, Ipv4Header.mk.injEq, true_and]
  exact ⟨htotal, rfl, rfl, rfl⟩

-- What is set in the header of a segment, flag by flag, and what is left as it was.
theorem headerOf_eq (flow : Flow) (segment : Segment) :
    headerOf flow segment =
      { TcpHeader.plain flow segment.chunk.seqno segment.feedback.window with
        ackno := segment.feedback.ackno.getD ⟨0⟩
        flags :=
          { fin := segment.chunk.fin
            syn := segment.chunk.syn
            rst := segment.chunk.rst || segment.feedback.rst
            psh := !segment.chunk.payload.isEmpty
            ack := segment.feedback.ackno.isSome } } := by
  unfold headerOf
  cases segment.chunk.syn <;> cases segment.chunk.fin <;>
    cases segment.chunk.rst || segment.feedback.rst <;>
    cases segment.chunk.payload.isEmpty <;> cases segment.feedback.ackno <;> rfl

-- The flags of the header are the flags that go with the segment.
theorem flags_headerOf (flow : Flow) (segment : Segment) :
    (headerOf flow segment).flags = segment.flags := by
  rw [headerOf_eq]
  rfl

theorem plain_headerOf (flow : Flow) (segment : Segment) :
    (headerOf flow segment).sourcePort = flow.source.port ∧
      (headerOf flow segment).destinationPort = flow.destination.port ∧
      (headerOf flow segment).headerLength = 20 := by
  rw [headerOf_eq]
  exact ⟨rfl, rfl, rfl⟩

theorem read_tcpHeader (flow : Flow) (segment : Segment) (rest : List UInt8) :
    TcpHeader.read (tcpHeader flow segment ++ rest) = .ok (headerOf flow segment) := by
  have hlength : ¬ (tcpHeader flow segment ++ rest).length < 20 := by
    rw [List.length_append, length_tcpHeader]
    omega
  have hwords : (tcpHeader flow segment ++ rest)[12].toNat / 16 = 5 := by
    change (0x50 : UInt8).toNat / 16 = 5
    decide
  simp only [TcpHeader.read, hlength, hwords, ↓reduceDIte, Nat.lt_irrefl, Nat.reduceMul,
    ↓reduceIte, Except.ok.injEq]
  exact TcpHeader.ext (word16_bytes16 _) (word16_bytes16 _) (congrArg SeqNo.mk (word32_bytes32 _))
    (congrArg SeqNo.mk (word32_bytes32 _)) (plain_headerOf flow segment).2.2.symm
    (Flags.ofByte_toByte _) (word16_bytes16 _)

theorem encode_eq_ok_iff (flow : Flow) (segment : Segment) (bytes : List UInt8) :
    encode flow segment = .ok bytes ↔ segment.chunk.payload.length ≤ 65495 ∧
      bytes = ipv4Header flow (20 + segment.chunk.payload.length) ++
        (tcpHeader flow segment ++ segment.chunk.payload) := by
  simp only [encode, contentLimit, minHeaderLength, tcpContent_eq]
  split
  · rename_i hlong
    exact ⟨nofun, fun hok => absurd hok.1 (by omega)⟩
  · rename_i hfits
    rw [Except.ok.injEq, eq_comm]
    exact ⟨fun hbytes => ⟨by omega, hbytes⟩, And.right⟩

theorem content_le_limit {segment : Segment} (hfits : segment.chunk.payload.length ≤ 65495) :
    20 + segment.chunk.payload.length ≤ contentLimit := by
  simp only [contentLimit, minHeaderLength]
  omega

-- The announced length cuts off what follows a payload. It does not make up for what is missing.
theorem payload_of_headers (headers rest : List UInt8) (count : Nat) :
    payload (headers ++ rest) headers.length (headers.length + count) = rest.take count := by
  rw [payload, List.drop_take, List.drop_left, List.take_eq_take_iff, List.length_append]
  omega

theorem segmentOf_headerOf (flow : Flow) (segment : Segment) (payload : List UInt8) :
    segmentOf (headerOf flow segment) payload = (segment.withPayload payload).carried := by
  have hackno : (if segment.feedback.ackno.isSome then
      some (segment.feedback.ackno.getD ⟨0⟩) else none) = segment.feedback.ackno := by
    cases segment.feedback.ackno <;> rfl
  rw [headerOf_eq]
  simp only [segmentOf, hackno]
  rfl

-- Behind the IPv4 header of a datagram its content is looked at as far as it is there.
theorem decode_ipv4Header (flow : Flow) (contentLength : Nat) (hfits : contentLength ≤ contentLimit)
    (rest : List UInt8) :
    decode (ipv4Header flow contentLength ++ rest) =
      match TcpHeader.read rest with
      | .error error => .error (.tcp error)
      | .ok tcp =>
          .ok (⟨⟨flow.source.address, tcp.sourcePort⟩,
              ⟨flow.destination.address, tcp.destinationPort⟩⟩,
            segmentOf tcp (payload (ipv4Header flow contentLength ++ rest)
              (20 + tcp.headerLength) (20 + contentLength))) := by
  have hdrop : (ipv4Header flow contentLength ++ rest).drop 20 = rest :=
    List.drop_left' (length_ipv4Header flow contentLength)
  simp only [decode, read_ipv4Header flow contentLength hfits rest, ne_eq, not_true_eq_false,
    ↓reduceIte, hdrop]
  rfl

-- The headers of a segment stand for it, with as much of its payload as follows them.
theorem decode_headers (flow : Flow) (segment : Segment) (rest : List UInt8)
    (hfits : segment.chunk.payload.length ≤ 65495) :
    decode (ipv4Header flow (20 + segment.chunk.payload.length) ++
        (tcpHeader flow segment ++ rest)) =
      .ok (flow,
        (segment.withPayload (rest.take segment.chunk.payload.length)).carried) := by
  have hpayload := payload_of_headers (ipv4Header flow (20 + segment.chunk.payload.length) ++
    tcpHeader flow segment) rest segment.chunk.payload.length
  rw [List.append_assoc, List.length_append, length_ipv4Header, length_tcpHeader] at hpayload
  obtain ⟨hsource, hdestination, hlength⟩ := plain_headerOf flow segment
  rw [decode_ipv4Header flow _ (content_le_limit hfits), read_tcpHeader]
  simp only [hsource, hdestination, hlength, ← Nat.add_assoc, Nat.reduceAdd] at hpayload ⊢
  rw [hpayload, segmentOf_headerOf]

end Datagram

end UserTcp
