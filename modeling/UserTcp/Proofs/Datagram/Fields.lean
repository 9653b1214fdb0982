import UserTcp.Datagram.Codec
import Mathlib.Tactic.SplitIfs

namespace UserTcp

namespace Datagram

-- The octet at a position. Zero stands for one that is not there.
def octet (bytes : List UInt8) (position : Nat) : UInt8 :=
  bytes.getD position 0

theorem octet_eq_of_take_eq {bytes other : List UInt8} {count position : Nat}
    (hsame : other.take count = bytes.take count) (hlt : position < count) :
    octet other position = octet bytes position := by
  have hbyte := congrArg (fun front => front[position]?) hsame
  simp only [List.getElem?_take, if_pos hlt] at hbyte
  rw [octet, octet, List.getD_eq_getElem?_getD, List.getD_eq_getElem?_getD, hbyte]

theorem octet_drop (bytes : List UInt8) (count position : Nat) :
    octet (bytes.drop count) position = octet bytes (count + position) := by
  simp only [octet, List.getD_eq_getElem?_getD, List.getElem?_drop]

-- The fields of an IPv4 header, each where it stands, whatever they say.
def version (bytes : List UInt8) : Nat :=
  (octet bytes 0).toNat / 16

def headerWords (bytes : List UInt8) : Nat :=
  (octet bytes 0).toNat % 16

def totalLength (bytes : List UInt8) : Nat :=
  (word16 (octet bytes 2) (octet bytes 3)).toNat

def protocol (bytes : List UInt8) : UInt8 :=
  octet bytes 9

def ipv4Fields (bytes : List UInt8) : Ipv4Header where
  headerLength := headerWords bytes * 4
  totalLength := totalLength bytes
  protocol := protocol bytes
  source := ⟨octet bytes 12, octet bytes 13, octet bytes 14, octet bytes 15⟩
  destination := ⟨octet bytes 16, octet bytes 17, octet bytes 18, octet bytes 19⟩

-- Those of a TCP header, at the front of a datagram's content.
def offsetWords (content : List UInt8) : Nat :=
  (octet content 12).toNat / 16

def tcpFields (content : List UInt8) : TcpHeader where
  sourcePort := word16 (octet content 0) (octet content 1)
  destinationPort := word16 (octet content 2) (octet content 3)
  seqno := ⟨word32 (octet content 4) (octet content 5) (octet content 6) (octet content 7)⟩
  ackno := ⟨word32 (octet content 8) (octet content 9) (octet content 10) (octet content 11)⟩
  headerLength := offsetWords content * 4
  flags := Flags.ofByte (octet content 13)
  window := word16 (octet content 14) (octet content 15)

end Datagram

open Datagram

namespace Ipv4Header

theorem read_eq (bytes : List UInt8) :
    read bytes =
      if 20 ≤ bytes.length then
        if version bytes = 4 then
          if 5 ≤ headerWords bytes then
            if headerWords bytes * 4 ≤ bytes.length then .ok (ipv4Fields bytes)
            else .error (.tooShort (headerWords bytes * 4) bytes.length)
          else .error (.headerLength (headerWords bytes))
        else .error (.version (version bytes))
      else .error (.tooShort 20 bytes.length) := by
  unfold read
  split
  · rename_i hshort
    rw [if_neg (Nat.not_le.mpr hshort)]
  · rename_i hlong
    simp only [List.getElem_eq_getD (0 : UInt8), if_pos (Nat.not_lt.mp hlong), ← Nat.not_le, ne_eq,
      ite_not]
    rfl

-- A header that is accepted is there as a whole and covers its fixed part.
theorem eq_of_read {bytes : List UInt8} {header : Ipv4Header} (hread : read bytes = .ok header) :
    header = ipv4Fields bytes ∧ 20 ≤ header.headerLength ∧ header.headerLength ≤ bytes.length := by
  rw [read_eq] at hread
  split_ifs at hread with hfixed hversion hwords hwhole
  cases hread
  exact ⟨rfl, Nat.mul_le_mul_right 4 hwords, hwhole⟩

end Ipv4Header

namespace TcpHeader

theorem read_eq (content : List UInt8) :
    read content =
      if 20 ≤ content.length then
        if 5 ≤ offsetWords content then
          if offsetWords content * 4 ≤ content.length then .ok (tcpFields content)
          else .error (.tooShort (offsetWords content * 4) content.length)
        else .error (.headerLength (offsetWords content))
      else .error (.tooShort 20 content.length) := by
  unfold read
  split
  · rename_i hshort
    rw [if_neg (Nat.not_le.mpr hshort)]
  · rename_i hlong
    simp only [List.getElem_eq_getD (0 : UInt8), if_pos (Nat.not_lt.mp hlong), ← Nat.not_le, ite_not]
    rfl

theorem eq_of_read {content : List UInt8} {header : TcpHeader}
    (hread : read content = .ok header) :
    header = tcpFields content ∧ 20 ≤ header.headerLength ∧
      header.headerLength ≤ content.length := by
  rw [read_eq] at hread
  split_ifs at hread with hfixed hwords hwhole
  cases hread
  exact ⟨rfl, Nat.mul_le_mul_right 4 hwords, hwhole⟩

end TcpHeader

end UserTcp
