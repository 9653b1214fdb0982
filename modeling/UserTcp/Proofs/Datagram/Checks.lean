import UserTcp.Proofs.Datagram.Fields
import UserTcp.Proofs.Reassembly.Checked

namespace UserTcp.Datagram

-- What follows the IPv4 header, whatever there is of it.
def content (bytes : List UInt8) : List UInt8 :=
  bytes.drop (headerWords bytes * 4)

def headersLength (bytes : List UInt8) : Nat :=
  headerWords bytes * 4 + offsetWords (content bytes) * 4

-- How far a datagram is looked at when it is accepted.
def extent (bytes : List UInt8) : Nat :=
  max (headersLength bytes) (totalLength bytes)

-- What a datagram says when its fields can be relied on.
def announced (bytes : List UInt8) : Flow × Segment :=
  let tcp := tcpFields (content bytes)
  (flowOf (ipv4Fields bytes) tcp,
    segmentOf tcp (payload bytes (headersLength bytes) (totalLength bytes)))

-- What a datagram is checked for.
inductive Check where
  | ipv4Fixed
  | ipv4Version
  | ipv4Words
  | ipv4Whole
  | carriesTcp
  | tcpFixed
  | tcpWords
  | tcpWhole
  deriving DecidableEq

namespace Check

def inOrder : List Check :=
  [ipv4Fixed, ipv4Version, ipv4Words, ipv4Whole, carriesTcp, tcpFixed, tcpWords, tcpWhole]

def passes (bytes : List UInt8) : Check → Bool
  | ipv4Fixed => 20 ≤ bytes.length
  | ipv4Version => version bytes = 4
  | ipv4Words => 5 ≤ headerWords bytes
  | ipv4Whole => headerWords bytes * 4 ≤ bytes.length
  | carriesTcp => protocol bytes = tcpProtocol
  | tcpFixed => 20 ≤ (content bytes).length
  | tcpWords => 5 ≤ offsetWords (content bytes)
  | tcpWhole => offsetWords (content bytes) * 4 ≤ (content bytes).length

-- The error that a datagram is refused with when the check is the first that fails.
def refusal (bytes : List UInt8) : Check → DatagramError
  | ipv4Fixed => .ipv4 (.tooShort 20 bytes.length)
  | ipv4Version => .ipv4 (.version (version bytes))
  | ipv4Words => .ipv4 (.headerLength (headerWords bytes))
  | ipv4Whole => .ipv4 (.tooShort (headerWords bytes * 4) bytes.length)
  | carriesTcp => .notTcp (protocol bytes)
  | tcpFixed => .tcp (.tooShort 20 (content bytes).length)
  | tcpWords => .tcp (.headerLength (offsetWords (content bytes)))
  | tcpWhole => .tcp (.tooShort (offsetWords (content bytes) * 4) (content bytes).length)

theorem mem_inOrder (check : Check) : check ∈ inOrder := by
  cases check <;> decide

end Check

theorem length_content (bytes : List UInt8) :
    (content bytes).length = bytes.length - headerWords bytes * 4 :=
  List.length_drop

-- Some checks one after the other, up to the first that fails.
def judge (bytes : List UInt8) : List Check → Except DatagramError (Flow × Segment)
  | [] => .ok (announced bytes)
  | check :: rest =>
      if check.passes bytes then judge bytes rest else .error (check.refusal bytes)

theorem judge_eq_ok_iff (bytes : List UInt8) (checks : List Check) (result : Flow × Segment) :
    judge bytes checks = .ok result ↔
      (∀ check ∈ checks, check.passes bytes = true) ∧ announced bytes = result := by
  induction checks with
  | nil => simp [judge]
  | cons check rest ih => cases hpasses : check.passes bytes <;> simp [judge, hpasses, ih]

theorem judge_eq_error_iff (bytes : List UInt8) (checks : List Check) (error : DatagramError) :
    judge bytes checks = .error error ↔
      ∃ check, checks.find? (fun check => !check.passes bytes) = some check ∧
        check.refusal bytes = error := by
  induction checks with
  | nil => simp [judge]
  | cons check rest ih => cases hpasses : check.passes bytes <;> simp [judge, hpasses, ih]

theorem decode_behind_ipv4 (bytes : List UInt8)
    (hread : Ipv4Header.read bytes = .ok (ipv4Fields bytes)) :
    decode bytes = judge bytes [.carriesTcp, .tcpFixed, .tcpWords, .tcpWhole] := by
  have hprotocol : (ipv4Fields bytes).protocol = protocol bytes := rfl
  have hcontent : bytes.drop (ipv4Fields bytes).headerLength = content bytes := rfl
  rw [decode, hread]
  simp only [judge, Check.passes, decide_eq_true_eq, ne_eq, ite_not, hprotocol, hcontent,
    TcpHeader.read_eq]
  split_ifs <;> rfl

-- Decoding makes the checks in this order and takes the fields as they are.
theorem decode_eq_judge (bytes : List UInt8) : decode bytes = judge bytes Check.inOrder := by
  have hread := Ipv4Header.read_eq bytes
  rw [Check.inOrder, judge, judge, judge, judge]
  simp only [Check.passes, decide_eq_true_eq]
  split_ifs at hread ⊢ with hfixed hversion hwords hwhole
  · exact decode_behind_ipv4 bytes hread
  all_goals rw [decode, hread]; rfl

-- Decoding, with a look before each cut whether the bytes are there. The fields of the headers need
-- none, since they are read at positions that are known to be inside.
def decode? (bytes : List UInt8) : Option (Except DatagramError (Flow × Segment)) :=
  match Ipv4Header.read bytes with
  | .error error => some (.error (.ipv4 error))
  | .ok ipv4 =>
      if ipv4.protocol ≠ tcpProtocol then some (.error (.notTcp ipv4.protocol))
      else
        (slice? bytes ipv4.headerLength bytes.length).bind fun content =>
          match TcpHeader.read content with
          | .error error => some (.error (.tcp error))
          | .ok tcp =>
              let headers := ipv4.headerLength + tcp.headerLength
              (slice? bytes headers (max headers (min ipv4.totalLength bytes.length))).map
                fun payload => .ok (flowOf ipv4 tcp, segmentOf tcp payload)

theorem slice?_payload (bytes : List UInt8) (headers totalLength : Nat)
    (hheaders : headers ≤ bytes.length) :
    slice? bytes headers (max headers (min totalLength bytes.length)) =
      some (payload bytes headers totalLength) := by
  rw [slice?_eq _ _ _ (Nat.le_max_left _ _) (by omega), payload, List.drop_take]

theorem decode?_eq (bytes : List UInt8) : decode? bytes = some (decode bytes) := by
  unfold decode? decode
  cases hipv4 : Ipv4Header.read bytes with
  | error error => rfl
  | ok ipv4 =>
      obtain ⟨-, -, hipv4Whole⟩ := Ipv4Header.eq_of_read hipv4
      dsimp only
      split
      · rfl
      · rw [slice?_eq _ _ _ hipv4Whole (Nat.le_refl _), Option.bind_some,
          List.take_of_length_le (Nat.le_of_eq List.length_drop)]
        cases htcp : TcpHeader.read (bytes.drop ipv4.headerLength) with
        | error error => rfl
        | ok tcp =>
            obtain ⟨-, -, htcpWhole⟩ := TcpHeader.eq_of_read htcp
            rw [List.length_drop] at htcpWhole
            dsimp only
            rw [slice?_payload _ _ _ (Nat.add_le_of_le_sub' hipv4Whole htcpWhole), Option.map_some]

section Agreement

variable {bytes other : List UInt8} (hpasses : ∀ check : Check, check.passes bytes = true)
  (hsame : other.take (extent bytes) = bytes.take (extent bytes))

include hpasses

theorem headers_of_passes :
    20 ≤ headerWords bytes * 4 ∧ headerWords bytes * 4 + 20 ≤ headersLength bytes := by
  have hwords := of_decide_eq_true (hpasses .ipv4Words)
  have hoffset := of_decide_eq_true (hpasses .tcpWords)
  simp only [headersLength]
  omega

include hsame

theorem octet_of_agrees {position : Nat} (hlt : position < headerWords bytes * 4 + 20) :
    octet other position = octet bytes position := by
  have hheaders := headers_of_passes hpasses
  have hextent : headersLength bytes ≤ extent bytes := Nat.le_max_left _ _
  exact octet_eq_of_take_eq hsame (by omega)

theorem version_of_agrees : version other = version bytes := by
  rw [version, version, octet_of_agrees hpasses hsame (by omega)]

theorem ipv4Fields_of_agrees : ipv4Fields other = ipv4Fields bytes := by
  have hoctet : ∀ position, position < 20 → octet other position = octet bytes position :=
    fun position hlt => octet_of_agrees hpasses hsame (by omega)
  simp only [ipv4Fields, headerWords, totalLength, protocol, hoctet, Nat.reduceLT]

theorem headerWords_of_agrees : headerWords other = headerWords bytes :=
  Nat.eq_of_mul_eq_mul_right (by decide)
    (congrArg Ipv4Header.headerLength (ipv4Fields_of_agrees hpasses hsame))

theorem tcpFields_of_agrees : tcpFields (content other) = tcpFields (content bytes) := by
  have hoctet : ∀ position, position < 20 →
      octet (content other) position = octet (content bytes) position := by
    intro position hlt
    rw [content, content, octet_drop, octet_drop, headerWords_of_agrees hpasses hsame]
    exact octet_of_agrees hpasses hsame (by omega)
  simp only [tcpFields, offsetWords, hoctet, Nat.reduceLT]

theorem offsetWords_of_agrees : offsetWords (content other) = offsetWords (content bytes) :=
  Nat.eq_of_mul_eq_mul_right (by decide)
    (congrArg TcpHeader.headerLength (tcpFields_of_agrees hpasses hsame))

theorem passes_of_agrees (hother : extent bytes ≤ other.length) (check : Check) :
    check.passes other = true := by
  have hwords := headerWords_of_agrees hpasses hsame
  have hoffset := offsetWords_of_agrees hpasses hsame
  have hheaders := headers_of_passes hpasses
  have hlength : headersLength bytes ≤ other.length := Nat.le_trans (Nat.le_max_left _ _) hother
  cases check with
  | ipv4Fixed => exact decide_eq_true (by omega)
  | ipv4Version =>
      simpa only [Check.passes, version_of_agrees hpasses hsame] using hpasses .ipv4Version
  | ipv4Words => simpa only [Check.passes, hwords] using hpasses .ipv4Words
  | ipv4Whole => exact decide_eq_true (by omega)
  | carriesTcp =>
      have hprotocol : protocol other = protocol bytes :=
        congrArg Ipv4Header.protocol (ipv4Fields_of_agrees hpasses hsame)
      simpa only [Check.passes, hprotocol] using hpasses .carriesTcp
  | tcpFixed => exact decide_eq_true (by rw [length_content]; omega)
  | tcpWords => simpa only [Check.passes, hoffset] using hpasses .tcpWords
  | tcpWhole =>
      rw [headersLength] at hlength
      exact decide_eq_true (by rw [length_content]; omega)

theorem announced_of_agrees (hbytes : extent bytes ≤ bytes.length)
    (hother : extent bytes ≤ other.length) : announced other = announced bytes := by
  have hipv4 := ipv4Fields_of_agrees hpasses hsame
  have htotal : totalLength other = totalLength bytes := congrArg Ipv4Header.totalLength hipv4
  have hheaders : headersLength other = headersLength bytes := by
    rw [headersLength, headersLength, headerWords_of_agrees hpasses hsame,
      offsetWords_of_agrees hpasses hsame]
  have hpayload : payload other (headersLength bytes) (totalLength bytes) =
      payload bytes (headersLength bytes) (totalLength bytes) := by
    have hextent : totalLength bytes ≤ extent bytes := Nat.le_max_right _ _
    rw [payload, payload, Nat.min_eq_left (Nat.le_trans hextent hbytes),
      Nat.min_eq_left (Nat.le_trans hextent hother)]
    exact congrArg (List.drop (headersLength bytes)) hsame
  rw [announced, announced, hipv4, tcpFields_of_agrees hpasses hsame, hheaders, htotal, hpayload]

end Agreement

theorem decode_eq_ok_iff_passes (bytes : List UInt8) (result : Flow × Segment) :
    decode bytes = .ok result ↔
      (∀ check : Check, check.passes bytes = true) ∧ announced bytes = result := by
  rw [decode_eq_judge, judge_eq_ok_iff]
  simp only [Check.mem_inOrder, forall_const]

-- A datagram is accepted exactly when it passes all checks, and otherwise refused by the first that
-- it fails. No cut on the way goes past its bytes. What is accepted has its payload between the end
-- of the headers and the end that the total length announces, and what lies behind both is not read.
theorem accepts_well_formed (bytes : List UInt8) :
    decode? bytes = some (decode bytes) ∧
      ((∃ flow segment, decode bytes = .ok (flow, segment)) ↔
        ∀ check : Check, check.passes bytes = true) ∧
      (∀ error, decode bytes = .error error ↔
        ∃ check, Check.inOrder.find? (fun check => !check.passes bytes) = some check ∧
          check.refusal bytes = error) ∧
      ∀ flow segment, decode bytes = .ok (flow, segment) →
        segment.chunk.payload =
            (bytes.take (max (headersLength bytes) (min (totalLength bytes) bytes.length))).drop
              (headersLength bytes) ∧
          ∀ other, extent bytes ≤ bytes.length → extent bytes ≤ other.length →
            other.take (extent bytes) = bytes.take (extent bytes) →
              decode other = decode bytes := by
  refine ⟨decode?_eq bytes, ⟨?_, ?_⟩, fun error => ?_, fun flow segment hdecode => ?_⟩
  · rintro ⟨flow, segment, hdecode⟩
    exact ((decode_eq_ok_iff_passes _ _).mp hdecode).1
  · intro hpasses
    exact ⟨_, _, (decode_eq_ok_iff_passes _ _).mpr ⟨hpasses, rfl⟩⟩
  · rw [decode_eq_judge, judge_eq_error_iff]
  · obtain ⟨hpasses, hannounced⟩ := (decode_eq_ok_iff_passes _ _).mp hdecode
    refine ⟨?_, fun other hbytes hother hsame => ?_⟩
    · obtain ⟨-, rfl⟩ := Prod.mk.inj hannounced
      rfl
    · rw [hdecode, ← hannounced, decode_eq_ok_iff_passes]
      exact ⟨passes_of_agrees hpasses hsame hother,
        announced_of_agrees hpasses hsame hbytes hother⟩

-- Both headers have options, and something trails the two octets of payload.
theorem accepts_well_formed_padded :
    let front : List UInt8 :=
      [0x46, 0, 0, 50, 0, 1, 0, 0, 9, 6, 0, 0, 10, 0, 0, 1, 10, 0, 0, 2, 1, 1, 1, 1,
        0, 80, 156, 64, 0, 0, 0, 9, 0, 0, 0, 3, 0x60, 0xf2, 1, 0, 0, 0, 0, 0, 1, 1, 1, 1, 5, 6]
    let flow : Flow := ⟨⟨⟨10, 0, 0, 1⟩, 80⟩, ⟨⟨10, 0, 0, 2⟩, 40000⟩⟩
    let segment : Segment := ⟨⟨⟨9⟩, true, [5, 6], false, false⟩, ⟨some ⟨3⟩, 256, false⟩⟩
    extent (front ++ [7, 8, 9]) = 50 ∧ decode (front ++ [7, 8, 9]) = .ok (flow, segment) ∧
      decode (front ++ [1]) = decode (front ++ [7, 8, 9]) := by
  intro front flow segment
  have hextent : extent (front ++ [7, 8, 9]) = 50 := by decide
  have hdecode : decode (front ++ [7, 8, 9]) = .ok (flow, segment) := by cbv
  obtain ⟨-, -, -, hread⟩ := accepts_well_formed (front ++ [7, 8, 9])
  exact ⟨hextent, hdecode, (hread flow segment hdecode).2 (front ++ [1]) (by decide) (by decide)
    (by rw [hextent]; rfl)⟩

end UserTcp.Datagram
