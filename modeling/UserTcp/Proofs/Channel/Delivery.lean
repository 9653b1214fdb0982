import UserTcp.Proofs.Channel.Sound

namespace UserTcp.Channel.Sound

variable {channel : Channel}

-- What readers took, followed by what they can still take, is all that was received. It is
-- the front of what was sent.
theorem received_eq (hsound : channel.Sound) :
    channel.taken ++ channel.inbound.stream.buffer =
      channel.sent.take channel.inbound.stream.pushed := by
  rw [hsound.taken_eq]
  exact hsound.takes.assembles.take_append_buffer

theorem length_received (hsound : channel.Sound) :
    (channel.taken ++ channel.inbound.stream.buffer).length = channel.inbound.stream.pushed := by
  rw [hsound.received_eq, List.length_take, Nat.min_eq_left hsound.takes.pushed_le]

theorem received_prefix (hsound : channel.Sound) :
    channel.taken ++ channel.inbound.stream.buffer <+: channel.written := by
  rw [hsound.received_eq]
  exact (List.take_prefix _ _).trans (List.take_prefix _ _)

theorem received_whole (hsound : channel.Sound) (hclosed : channel.inbound.stream.closed = true) :
    channel.outbound.input.closed = true ∧
      channel.taken ++ channel.inbound.stream.buffer = channel.written := by
  obtain ⟨hfin, hpushed⟩ := hsound.takes.whole hclosed
  obtain ⟨hended, hpopped⟩ := hsound.sends.ended hfin
  refine ⟨hended, ?_⟩
  rw [hsound.received_eq, hpushed, List.take_length, sent, hpopped, List.take_length]

-- A receiver with a closed stream acknowledges all that there is to send.
theorem received_of_closed (hsound : channel.Sound) (hclosed : channel.inbound.stream.closed = true) :
    channel.inbound.received = channel.outbound.next := by
  obtain ⟨hfin, hpushed⟩ := hsound.takes.whole hclosed
  have hsyn : channel.outbound.synSent = true := by
    by_contra hunsent
    rw [(hsound.sends.unsent (eq_false_of_ne_true hunsent)).2] at hfin
    cases hfin
  rw [Inbound.received, hclosed, hpushed, hsound.length_sent, hsound.sends.next_eq, hsyn, hfin]
  rfl

-- A sender that waits for nothing more has been heard to its FIN.
theorem closed_of_finished (hsound : channel.Sound) (hfinished : channel.outbound.finished = true) :
    channel.inbound.stream.closed = true := by
  obtain ⟨hfin, hempty⟩ := Bool.and_eq_true_iff.mp hfinished
  have hflights : channel.outbound.flights = [] := List.isEmpty_iff.mp hempty
  have hnext := hsound.sends.next_eq
  have hacked := hsound.acked
  have hpushed := hsound.takes.pushed_le
  have htiles := hsound.sends.tiles
  have hinFlight := hsound.sends.inFlight_le
  rw [hflights] at htiles
  simp only [Outbound.Tiles] at htiles
  rw [hsound.length_sent] at hpushed
  rw [hfin, Bool.toNat_true] at hnext
  have hsyn := hsound.sends.synSent_of_next_pos (by omega)
  rw [hsyn, Bool.toNat_true] at hnext
  cases hinitial : channel.inbound.initial with
  | none =>
      rw [channel.inbound.confirmed_of_none hinitial] at hacked
      omega
  | some known =>
      rw [channel.inbound.confirmed_of_some hinitial, Inbound.received] at hacked
      by_contra hopen
      rw [eq_false_of_ne_true hopen, Bool.toNat_false] at hacked
      omega

end UserTcp.Channel.Sound
