import UserTcp.Proofs.Outbound.Flights
import UserTcp.Proofs.Pipe.Carries
import UserTcp.Proofs.Segment.Placed

namespace UserTcp.Outbound

-- What a sender has sent is its SYN, the bytes taken out of its input, and its FIN. The
-- flights are the last part of that.
structure Sends (outbound : Outbound) (written : List UInt8) : Prop where
  input : outbound.input.Carries written
  next_eq : outbound.next =
    outbound.synSent.toNat + outbound.input.popped + outbound.finSent.toNat
  unsent : outbound.synSent = false → outbound.input.popped = 0 ∧ outbound.finSent = false
  ended : outbound.finSent = true →
    outbound.input.closed = true ∧ outbound.input.popped = written.length
  inFlight_le : outbound.inFlight ≤ outbound.next
  tiles : Tiles (outbound.next - outbound.inFlight) outbound.flights outbound.next
  placed : ∀ flight ∈ outbound.flights,
    flight.chunk.Placed outbound.initial flight.start written outbound.input.closed

theorem sends_ofInput (capacity : Nat) (initial : SeqNo) (timeout : Millis) (payloadLimit : Nat) :
    (ofInput (Pipe.empty capacity) initial timeout payloadLimit).Sends [] where
  input := Pipe.carries_empty capacity
  next_eq := rfl
  unsent := fun _ => ⟨rfl, rfl⟩
  ended := fun hfin => absurd hfin Bool.false_ne_true
  inFlight_le := Nat.le_refl 0
  tiles := rfl
  placed := fun _ hmem => absurd hmem List.not_mem_nil

-- How many bytes the next fresh chunk takes out of the input.
def taking (outbound : Outbound) (window : Nat) : Nat :=
  min (min (window - outbound.inFlight - (!outbound.synSent).toNat) outbound.payloadLimit)
    outbound.input.buffered

theorem cut_eq (outbound : Outbound) (window : Nat) :
    outbound.cut window =
      ({ outbound.emptyChunk with
          syn := !outbound.synSent
          payload := outbound.input.buffer.take (outbound.taking window)
          fin := (outbound.input.pop (outbound.taking window)).drained &&
            decide ((outbound.input.buffer.take (outbound.taking window)).length <
              window - outbound.inFlight - (!outbound.synSent).toNat) },
        outbound.input.pop (outbound.taking window)) := by
  simp only [cut, Pipe.read_eq, taking]
  rfl

namespace Sends

variable {outbound : Outbound} {written : List UInt8}

theorem next_eq_of_open (hsends : outbound.Sends written) (hfin : outbound.finSent = false) :
    outbound.next = outbound.synSent.toNat + outbound.input.popped := by
  rw [hsends.next_eq, hfin]
  rfl

theorem next_le (hsends : outbound.Sends written) : outbound.next ≤ written.length + 2 := by
  have hnext := hsends.next_eq
  have hpopped := hsends.input.popped_le
  have hsyn := Bool.toNat_le outbound.synSent
  have hfin := Bool.toNat_le outbound.finSent
  omega

-- Nothing goes out before the SYN.
theorem synSent_of_next_pos (hsends : outbound.Sends written) (hpos : 0 < outbound.next) :
    outbound.synSent = true := by
  by_contra hunsent
  have hfalse := eq_false_of_ne_true hunsent
  obtain ⟨hpopped, hfin⟩ := hsends.unsent hfalse
  have hnext := hsends.next_eq
  rw [hfalse, hpopped, hfin] at hnext
  simp only [Bool.toNat_false] at hnext
  omega

theorem offset_cut (hsends : outbound.Sends written) (hfin : outbound.finSent = false)
    (window : Nat) : (outbound.cut window).1.offset outbound.next = outbound.input.popped := by
  rw [cut_eq, Chunk.offset, hsends.next_eq_of_open hfin]
  cases outbound.synSent with
  | false => exact Nat.zero_add _
  | true => exact Nat.add_sub_cancel_left 1 _

-- A fresh chunk continues what has been sent.
theorem placed_cut (hsends : outbound.Sends written) (hfin : outbound.finSent = false)
    (window : Nat) :
    (outbound.cut window).1.Placed outbound.initial outbound.next written
      outbound.input.closed := by
  have hnext := hsends.next_eq_of_open hfin
  have hoffset := hsends.offset_cut hfin window
  have hbuffer := hsends.input.buffer_eq
  have hpopped := hsends.input.popped_le
  have hlen : outbound.input.buffer.length = written.length - outbound.input.popped := by
    rw [hbuffer, List.length_drop]
  constructor
  · rw [cut_eq]
    rfl
  · rw [cut_eq, hnext]
    cases hsyn : outbound.synSent with
    | false => simp [(hsends.unsent hsyn).1]
    | true => simp
  · rw [hoffset, ← hbuffer, cut_eq]
    exact List.take_prefix _ _
  · rw [hoffset, cut_eq, List.length_take]
    omega
  · intro hchunk
    rw [hoffset, cut_eq]
    rw [cut_eq] at hchunk
    obtain ⟨hdrained, -⟩ := Bool.and_eq_true_iff.mp hchunk
    obtain ⟨hclosed, hempty⟩ := Bool.and_eq_true_iff.mp hdrained
    have hall : outbound.input.buffer.length ≤ outbound.taking window :=
      List.drop_eq_nil_iff.mp (List.isEmpty_iff.mp hempty)
    refine ⟨hclosed, ?_⟩
    rw [List.take_of_length_le hall]
    change outbound.input.popped + outbound.input.buffer.length = written.length
    omega

-- What has been sent stands in the part of the stream that is taken out of the input, and
-- a FIN at the end of it.
theorem placed_sent (hsends : outbound.Sends written) (chunk : Chunk) (start : Nat)
    (hplaced : chunk.Placed outbound.initial start written outbound.input.closed)
    (hstop : start + chunk.span ≤ outbound.next) :
    chunk.Placed outbound.initial start (written.take outbound.input.popped)
      outbound.finSent := by
  have hpopped := hsends.input.popped_le
  have hle := hplaced.payload_le
  have hsum : chunk.offset start + chunk.payload.length + chunk.fin.toNat ≤
      outbound.input.popped + outbound.finSent.toNat := by
    have hnext := hsends.next_eq
    have hfirst := hplaced.one_le
    have hsyn := Bool.toNat_le outbound.synSent
    simp only [Chunk.span, Chunk.offset] at *
    omega
  have hfin : chunk.fin = true → outbound.finSent = true := by
    intro hchunk
    have hend := (hplaced.fin_at hchunk).2
    by_contra hopen
    rw [hchunk, eq_false_of_ne_true hopen, Bool.toNat_true, Bool.toNat_false] at hsum
    omega
  have hsent : chunk.offset start + chunk.payload.length ≤ outbound.input.popped := by
    cases hended : outbound.finSent with
    | true =>
        rw [(hsends.ended hended).2]
        exact hle
    | false =>
        rw [hended, Bool.toNat_false] at hsum
        omega
  have hlen : (written.take outbound.input.popped).length = outbound.input.popped := by
    rw [List.length_take, Nat.min_eq_left hpopped]
  refine ⟨hplaced.seqno_eq, hplaced.syn_iff, ?_, hlen.symm ▸ hsent, ?_⟩
  · rw [List.drop_take, List.prefix_take_iff]
    exact ⟨hplaced.payload_prefix, by omega⟩
  · intro hchunk
    refine ⟨hfin hchunk, ?_⟩
    rw [hlen, (hsends.ended (hfin hchunk)).2]
    exact (hplaced.fin_at hchunk).2

protected theorem launch (hsends : outbound.Sends written) (hfin : outbound.finSent = false)
    (window : Nat) (hspan : 0 < (outbound.cut window).1.span) :
    (outbound.launch (outbound.cut window).1 (outbound.cut window).2).Sends written := by
  have hplaced := hsends.placed_cut hfin window
  have hnext := hsends.next_eq_of_open hfin
  have hinput : (outbound.cut window).2 = outbound.input.pop (outbound.taking window) := by
    rw [cut_eq]
  have hsyn : (outbound.cut window).1.syn = !outbound.synSent := by rw [cut_eq]
  have hpopped : (outbound.cut window).2.popped =
      outbound.input.popped + (outbound.cut window).1.payload.length := by
    rw [cut_eq]
    simp only [Pipe.pop, Pipe.buffered, List.length_take]
  have hinFlight := hsends.inFlight_le
  constructor
  · simp only [Outbound.launch, hinput]
    exact hsends.input.pop _
  · simp only [Outbound.launch, hpopped, Chunk.span, hsyn, hfin, hnext, Bool.false_or]
    cases outbound.synSent <;> simp <;> omega
  · intro hunsent
    simp [Outbound.launch, hsyn] at hunsent
  · simp only [Outbound.launch, hfin, Bool.false_or]
    intro hchunk
    obtain ⟨hclosed, hstop⟩ := hplaced.fin_at hchunk
    rw [hsends.offset_cut hfin] at hstop
    exact ⟨by rw [hinput, Pipe.closed_pop, hclosed], hpopped.trans hstop⟩
  · simp only [Outbound.launch]
    omega
  · simp only [Outbound.launch]
    rw [Nat.add_sub_add_right]
    exact (tiles_append _ _ _ _).mpr ⟨_, hsends.tiles, tiles_singleton _ _ hspan⟩
  · intro flight hmem
    simp only [Outbound.launch, List.mem_append, List.mem_singleton, hinput,
      Pipe.closed_pop] at hmem ⊢
    rcases hmem with hmem | rfl
    · exact hsends.placed flight hmem
    · exact hplaced

protected theorem send (hsends : outbound.Sends written) : outbound.send.1.Sends written :=
  fill_keeps (Sends · written) _ (fun _ hbefore _ hfin hspan => hbefore.launch hfin _ hspan)
    outbound hsends

protected theorem apply (hsends : outbound.Sends written) (op : Pipe.Op)
    (hop : op.takes = false) :
    { outbound with input := (outbound.input.apply op).2 }.Sends
      (written ++ op.added outbound.input) := by
  have hclosed : outbound.input.closed = true →
      (outbound.input.apply op).2.closed = true ∧ op.added outbound.input = [] := fun h =>
    ⟨Pipe.closed_apply _ op h, Pipe.added_of_closed _ op h⟩
  have hpopped := Pipe.popped_apply outbound.input op hop
  constructor
  · exact hsends.input.apply op
  · simp only [hpopped]
    exact hsends.next_eq
  · simp only [hpopped]
    exact hsends.unsent
  · intro hfin
    obtain ⟨hbefore, hall⟩ := hsends.ended hfin
    obtain ⟨hafter, hadded⟩ := hclosed hbefore
    exact ⟨hafter, by rw [hadded, List.append_nil, hpopped, hall]⟩
  · exact hsends.inFlight_le
  · exact hsends.tiles
  · intro flight hmem
    exact (hsends.placed flight hmem).grow _ _ hclosed

end Sends

end UserTcp.Outbound
