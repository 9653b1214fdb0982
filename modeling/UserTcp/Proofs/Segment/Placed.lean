import UserTcp.Segment.Basic
import Mathlib.Data.List.Basic

namespace UserTcp.Chunk

-- Where in the stream the payload of a chunk begins whose first sequence number has the
-- index `start`. The SYN comes before the stream.
def offset (chunk : Chunk) (start : Nat) : Nat :=
  start + chunk.syn.toNat - 1

-- A chunk that stands at an index of the sequence of SYN, stream and FIN: it has the wire
-- form of the index, the SYN if it is the first one, the bytes of the stream from there on,
-- and the FIN only behind all of them.
structure Placed (chunk : Chunk) (initial : SeqNo) (start : Nat) (written : List UInt8)
    (closed : Bool) : Prop where
  seqno_eq : chunk.seqno = SeqNo.ofIndex start initial
  syn_iff : chunk.syn = true ↔ start = 0
  payload_prefix : chunk.payload <+: written.drop (chunk.offset start)
  payload_le : chunk.offset start + chunk.payload.length ≤ written.length
  fin_at : chunk.fin = true →
    closed = true ∧ chunk.offset start + chunk.payload.length = written.length

theorem span_pos_of_syn (chunk : Chunk) (hsyn : chunk.syn = true) : 0 < chunk.span := by
  rw [span, hsyn, Bool.toNat_true]
  omega

theorem span_pos_of_fin (chunk : Chunk) (hfin : chunk.fin = true) : 0 < chunk.span := by
  rw [span, hfin, Bool.toNat_true]
  omega

theorem empty_of_span (chunk : Chunk) (hspan : ¬ 0 < chunk.span) :
    chunk.payload = [] ∧ chunk.fin = false := by
  unfold span at hspan
  constructor
  · rw [← List.length_eq_zero_iff]
    omega
  · by_contra hfin
    rw [eq_true_of_ne_false hfin, Bool.toNat_true] at hspan
    omega

theorem Placed.one_le {chunk : Chunk} {initial : SeqNo} {start : Nat} {written : List UInt8}
    {closed : Bool} (hplaced : chunk.Placed initial start written closed) :
    1 ≤ start + chunk.syn.toNat := by
  by_cases hfirst : start = 0
  · rw [hplaced.syn_iff.mpr hfirst, Bool.toNat_true]
    omega
  · omega

-- A stream that grows does so behind the chunk. Once it is closed it does not grow.
theorem Placed.grow {chunk : Chunk} {initial : SeqNo} {start : Nat} {written : List UInt8}
    {closed : Bool} (hplaced : chunk.Placed initial start written closed)
    (added : List UInt8) (closedAfter : Bool)
    (hclosed : closed = true → closedAfter = true ∧ added = []) :
    chunk.Placed initial start (written ++ added) closedAfter where
  seqno_eq := hplaced.seqno_eq
  syn_iff := hplaced.syn_iff
  payload_prefix := by
    have hle := hplaced.payload_le
    rw [List.drop_append_of_le_length (by omega)]
    exact hplaced.payload_prefix.trans (List.prefix_append _ _)
  payload_le := by
    have hle := hplaced.payload_le
    rw [List.length_append]
    omega
  fin_at := by
    intro hfin
    obtain ⟨hbefore, hstop⟩ := hplaced.fin_at hfin
    obtain ⟨hafter, rfl⟩ := hclosed hbefore
    exact ⟨hafter, by rw [List.append_nil, hstop]⟩

end UserTcp.Chunk
