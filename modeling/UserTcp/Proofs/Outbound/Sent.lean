import UserTcp.Proofs.Outbound.Settles

namespace UserTcp.Outbound

-- `fresh` are the chunks that a sender has sent, in order and without repetitions. They take
-- up all sequence numbers so far, and each stands where the stream says.
structure Sent (outbound : Outbound) (written : List UInt8) (fresh : List Chunk) : Prop where
  sends : outbound.Sends written
  next_eq : outbound.next = spans fresh
  span_pos : ∀ chunk ∈ fresh, 0 < chunk.span
  placed : ∀ flight ∈ locate 0 fresh,
    flight.chunk.Placed outbound.initial flight.start written outbound.input.closed
  syn_count : fresh.countP Chunk.syn = outbound.synSent.toNat
  fin_count : fresh.countP Chunk.fin = outbound.finSent.toNat
  -- Nothing follows a FIN.
  fin_last : ∀ chunk ∈ fresh.dropLast, chunk.fin = false
  flights_suffix : outbound.flights <:+ locate 0 fresh

theorem sent_ofInput (capacity : Nat) (initial : SeqNo) (timeout : Millis) (payloadLimit : Nat) :
    (ofInput (Pipe.empty capacity) initial timeout payloadLimit).Sent [] [] where
  sends := sends_ofInput capacity initial timeout payloadLimit
  next_eq := rfl
  span_pos := fun _ hmem => absurd hmem List.not_mem_nil
  placed := fun _ hmem => absurd hmem List.not_mem_nil
  syn_count := rfl
  fin_count := rfl
  fin_last := fun _ hmem => absurd hmem List.not_mem_nil
  flights_suffix := List.suffix_rfl

theorem countP_append_singleton (predicate : Chunk → Bool) (chunks : List Chunk) (chunk : Chunk) :
    (chunks ++ [chunk]).countP predicate = chunks.countP predicate + (predicate chunk).toNat := by
  rw [List.countP_append, List.countP_singleton]
  cases predicate chunk <;> rfl

namespace Sent

variable {outbound : Outbound} {written : List UInt8} {fresh : List Chunk}

theorem no_fin (hsent : outbound.Sent written fresh) (hfin : outbound.finSent = false) :
    ∀ chunk ∈ fresh, chunk.fin = false := by
  have hcount := hsent.fin_count
  rw [hfin, Bool.toNat_false, List.countP_eq_zero] at hcount
  exact fun chunk hmem => eq_false_of_ne_true (hcount chunk hmem)

theorem locate_append_singleton (hsent : outbound.Sent written fresh) (chunk : Chunk) :
    locate 0 (fresh ++ [chunk]) = locate 0 fresh ++ [⟨outbound.next, chunk⟩] := by
  rw [locate_append, Nat.zero_add, ← hsent.next_eq]
  rfl

protected theorem launch (hsent : outbound.Sent written fresh) (hfin : outbound.finSent = false)
    (window : Nat) (hspan : 0 < (outbound.cut window).1.span) :
    (outbound.launch (outbound.cut window).1 (outbound.cut window).2).Sent written
      (fresh ++ [(outbound.cut window).1]) := by
  have hplaced := hsent.sends.placed_cut hfin window
  have hinput : (outbound.cut window).2 = outbound.input.pop (outbound.taking window) := by
    rw [cut_eq]
  have hsyn : (outbound.cut window).1.syn = !outbound.synSent := by rw [cut_eq]
  constructor
  · exact hsent.sends.launch hfin window hspan
  · rw [spans_append, spans_cons, spans_nil, ← hsent.next_eq]
    rfl
  · intro chunk hmem
    rcases List.mem_append.mp hmem with hmem | hmem
    · exact hsent.span_pos chunk hmem
    · rw [List.mem_singleton.mp hmem]
      exact hspan
  · intro flight hmem
    rw [hsent.locate_append_singleton, List.mem_append, List.mem_singleton] at hmem
    simp only [Outbound.launch, hinput, Pipe.closed_pop]
    rcases hmem with hmem | rfl
    · exact hsent.placed flight hmem
    · exact hplaced
  · rw [countP_append_singleton, hsent.syn_count, hsyn]
    simp only [Outbound.launch, hsyn]
    cases outbound.synSent <;> rfl
  · rw [countP_append_singleton, hsent.fin_count]
    simp only [Outbound.launch, hfin, Bool.false_or, Bool.toNat_false, Nat.zero_add]
  · rw [List.dropLast_concat]
    exact hsent.no_fin hfin
  · rw [hsent.locate_append_singleton]
    obtain ⟨gone, hgone⟩ := hsent.flights_suffix
    refine ⟨gone, ?_⟩
    rw [← hgone, List.append_assoc]
    rfl

protected theorem fill (hsent : outbound.Sent written fresh) (window : Nat) :
    (outbound.fill window).1.Sent written (fresh ++ (outbound.fill window).2) :=
  fill_keeps_sent (Sent · written) window
    (fun _ _ hbefore _ hfin hspan => hbefore.launch hfin window hspan) outbound fresh hsent

theorem settle (hsent : outbound.Sent written fresh) {after : Outbound} {ack : Nat}
    (hsettles : Settles outbound after ack) : after.Sent written fresh where
  sends := hsent.sends.settle hsettles
  next_eq := hsettles.next_eq.trans hsent.next_eq
  span_pos := hsent.span_pos
  placed := by
    rw [hsettles.initial_eq, hsettles.closed_eq]
    exact hsent.placed
  syn_count := by rw [hsettles.synSent_eq, hsent.syn_count]
  fin_count := by rw [hsettles.finSent_eq, hsent.fin_count]
  fin_last := hsent.fin_last
  flights_suffix := hsettles.flights_suffix.trans hsent.flights_suffix

protected theorem apply (hsent : outbound.Sent written fresh) (op : Pipe.Op)
    (hop : op.takes = false) :
    { outbound with input := (outbound.input.apply op).2 }.Sent
      (written ++ op.added outbound.input) fresh where
  sends := hsent.sends.apply op hop
  next_eq := hsent.next_eq
  span_pos := hsent.span_pos
  placed := fun flight hmem => (hsent.placed flight hmem).grow _ _ fun hclosed =>
    ⟨Pipe.closed_apply _ op hclosed, Pipe.added_of_closed _ op hclosed⟩
  syn_count := hsent.syn_count
  fin_count := hsent.fin_count
  fin_last := hsent.fin_last
  flights_suffix := hsent.flights_suffix

theorem mem_of_mem_flights (hsent : outbound.Sent written fresh) (flight : Flight)
    (hmem : flight ∈ outbound.flights) : flight.chunk ∈ fresh := by
  rw [← map_chunk_locate 0 fresh]
  exact List.mem_map_of_mem (hsent.flights_suffix.subset hmem)

theorem tiles (hsent : outbound.Sent written fresh) :
    Tiles 0 (locate 0 fresh) outbound.next := by
  have htiles := tiles_locate 0 fresh hsent.span_pos
  rwa [Nat.zero_add, ← hsent.next_eq] at htiles

end Sent

end UserTcp.Outbound
