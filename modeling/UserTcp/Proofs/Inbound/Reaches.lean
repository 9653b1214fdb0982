import UserTcp.Proofs.Inbound.Takes
import Mathlib.Data.Bool.Basic

namespace UserTcp

namespace Chunk.Placed

variable {chunk : Chunk} {initial : SeqNo} {start : Nat} {stream : List UInt8} {ended : Bool}

-- A receiver finds the place of a chunk that begins within half a lap of what it waits for.
theorem streamIndex?_eq (hplaced : chunk.Placed initial start stream ended) (pushed : Nat)
    (hahead : start ≤ pushed + 1 + SeqNo.lap / 2) (hbehind : pushed + 1 < start + SeqNo.lap / 2)
    (hindex : start < SeqNo.indexLimit) :
    Inbound.streamIndex? chunk initial pushed = some (chunk.offset start) := by
  have hfound : chunk.seqno.nearestIndex initial (pushed + 1) = start := by
    rw [hplaced.seqno_eq]
    exact SeqNo.nearestIndex_of_near start _ initial hahead hbehind hindex
  have hfirst := hplaced.one_le
  unfold Inbound.streamIndex? offset
  rw [hfound]
  split
  · omega
  · rename_i index hsum
    rw [hsum]
    rfl

end Chunk.Placed

namespace Inbound.Takes

variable {inbound : Inbound} {initial : SeqNo} {stream : List UInt8} {ended : Bool}

-- A chunk that the output waits for, and that it has room for, goes into it to its end.
theorem stop_le_received_insert (htakes : inbound.Takes initial stream ended) (chunk : Chunk)
    (start : Nat) (hplaced : chunk.Placed initial start stream ended)
    (hopen : inbound.stream.closed = false) (hstart : start ≤ inbound.stream.pushed + 1)
    (hfree : 0 < inbound.stream.free) (hfits : chunk.payload.length ≤ inbound.stream.free) :
    start + chunk.span ≤ received { inbound with
      reassembly := inbound.reassembly.insert ⟨chunk.offset start, chunk.payload⟩ chunk.fin } := by
  have hfirst := hplaced.one_le
  have hoffset : chunk.offset start ≤ inbound.stream.pushed := by
    unfold Chunk.offset
    cases hsyn : chunk.syn with
    | false => simp only [Bool.toNat_false]; omega
    | true =>
        have hzero := hplaced.syn_iff.mp hsyn
        simp only [Bool.toNat_true]
        omega
  have hlimit : inbound.reassembly.limit = inbound.stream.pushed + inbound.stream.free := rfl
  have hadmits : inbound.reassembly.admits ⟨chunk.offset start, chunk.payload⟩ = true :=
    (Reassembly.admits_iff _ _).mpr
      ⟨hopen, hfree, Nat.lt_of_le_of_lt hoffset (Nat.lt_add_of_pos_right hfree)⟩
  have hstop : Run.stop ⟨chunk.offset start, chunk.payload⟩ ≤ inbound.reassembly.limit := by
    rw [hlimit]
    exact Nat.add_le_add hoffset hfits
  have hexpected : chunk.offset start + chunk.payload.length ≤ _ :=
    Reassembly.stop_le_expected_insert htakes.assembles.intact _ chunk.fin hadmits hoffset hstop
  have hclosed : chunk.fin.toNat ≤ (inbound.reassembly.insert
      ⟨chunk.offset start, chunk.payload⟩ chunk.fin).output.closed.toNat := by
    refine Bool.toNat_le_toNat (Bool.le_iff_imp.mpr fun hfin => ?_)
    rw [hfin]
    exact htakes.assembles.closed_insert_of_last _ hplaced.piece hadmits hoffset hstop
      (hplaced.fin_at hfin).2
  simp only [received, Inbound.stream, Chunk.span, Chunk.offset, Reassembly.expected] at *
  omega

-- A chunk that begins no later than what is received, and that all of the room can hold, is
-- received to its end.
theorem stop_le_received_place (htakes : inbound.Takes initial stream ended) (chunk : Chunk)
    (start : Nat) (hplaced : chunk.Placed initial start stream ended)
    (hstart : start ≤ inbound.received)
    (hbehind : inbound.stream.pushed + 1 < start + SeqNo.lap / 2)
    (hindex : inbound.stream.pushed + 1 < SeqNo.indexLimit)
    (hdrained : inbound.stream.buffer = []) (hroom : 0 < inbound.stream.capacity)
    (hfits : chunk.payload.length ≤ inbound.stream.capacity) :
    start + chunk.span ≤ (inbound.place chunk initial).received := by
  cases hclosed : inbound.stream.closed with
  | true =>
      -- nothing is missing any more
      have hall := (htakes.whole hclosed).2
      have hgrows := inbound.received_le_place chunk initial htakes.assembles.intact
      have hfirst := hplaced.one_le
      have hle := hplaced.payload_le
      have hfin := Bool.toNat_le chunk.fin
      rw [received, hclosed, Bool.toNat_true] at hgrows
      simp only [Chunk.span, Chunk.offset] at *
      omega
  | false =>
      have hwaits : start ≤ inbound.stream.pushed + 1 := by
        rw [received, hclosed, Bool.toNat_false] at hstart
        omega
      have hfree : inbound.stream.free = inbound.stream.capacity := by
        rw [Pipe.free, Pipe.buffered, hdrained, List.length_nil, Nat.sub_zero]
      rw [Inbound.place, hplaced.streamIndex?_eq inbound.stream.pushed (by omega) hbehind (by omega)]
      exact htakes.stop_le_received_insert chunk start hplaced hclosed hwaits (hfree ▸ hroom)
        (hfree ▸ hfits)

-- The same in terms of the acknowledgment. The SYN goes to a receiver that knows nothing yet.
theorem stop_le_confirmed_receive (htakes : inbound.Takes initial stream ended) (chunk : Chunk)
    (start : Nat) (hplaced : chunk.Placed initial start stream ended)
    (hrst : chunk.rst = false) (hstart : start ≤ inbound.confirmed)
    (hbehind : inbound.stream.pushed + 1 < start + SeqNo.lap / 2)
    (hindex : inbound.stream.pushed + 1 < SeqNo.indexLimit)
    (hdrained : inbound.stream.buffer = []) (hroom : 0 < inbound.stream.capacity)
    (hfits : chunk.payload.length ≤ inbound.stream.capacity) :
    start + chunk.span ≤ (inbound.receive chunk).confirmed := by
  cases hinitial : inbound.initial with
  | some known =>
      obtain rfl := htakes.initial_eq known hinitial
      rw [inbound.confirmed_of_some hinitial] at hstart
      have hreceive : inbound.receive chunk = inbound.place chunk known := by
        rw [Inbound.receive, if_neg (by rw [hrst]; exact Bool.false_ne_true), hinitial]
      rw [confirmed_of_some _ (inbound.initial_receive_of_some chunk hinitial), hreceive]
      exact htakes.stop_le_received_place chunk start hplaced hstart hbehind hindex hdrained hroom
        hfits
  | none =>
      rw [inbound.confirmed_of_none hinitial] at hstart
      have hsyn := hplaced.syn_iff.mpr (Nat.le_zero.mp hstart)
      have hseqno : chunk.seqno = initial := by
        rw [hplaced.seqno_eq, Nat.le_zero.mp hstart, SeqNo.ofIndex_zero]
      have hreceive : inbound.receive chunk =
          { inbound with initial := some initial }.place chunk initial := by
        rw [Inbound.receive, if_neg (by rw [hrst]; exact Bool.false_ne_true), hinitial]
        simp only [hsyn, ↓reduceIte, hseqno]
      have hknown : (inbound.receive chunk).initial = some initial := by
        rw [hreceive, initial_place]
      rw [confirmed_of_some _ hknown, hreceive]
      exact htakes.learn.stop_le_received_place chunk start hplaced
        (Nat.le_trans hstart (Nat.zero_le _)) hbehind hindex hdrained hroom hfits

end Inbound.Takes

end UserTcp
