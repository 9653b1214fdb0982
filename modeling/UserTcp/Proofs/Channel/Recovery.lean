import UserTcp.Proofs.Channel.Round
import Mathlib

namespace UserTcp.Channel

-- The sequence numbers of the stream that are not acknowledged yet, sent or unsent, once
-- its length is known.
def remaining (channel : Channel) : Nat :=
  channel.outbound.inFlight + (channel.written.length + 2 - channel.outbound.next)

@[simp] theorem outbound_heard (channel : Channel) :
    channel.heard.outbound = channel.outbound.turn.1 :=
  outbound_foldl_hear _ _

@[simp] theorem written_round (channel : Channel) : channel.round.written = channel.written :=
  written_foldl_hear _ _

theorem buffer_round (channel : Channel) : channel.round.inbound.stream.buffer = [] :=
  buffer_foldl_hear _ _ (buffer_readAll _)

theorem written_iterate_round (channel : Channel) (count : Nat) :
    (round^[count] channel).written = channel.written := by
  induction count with
  | zero => rfl
  | succ count ih => rw [Function.iterate_succ_apply', written_round, ih]

namespace Ready

variable {channel : Channel}

theorem turn (hready : channel.Ready) :
    Ready { channel with outbound := channel.outbound.turn.1 } :=
  hready.send.elapse _

theorem heard (hready : channel.Ready) : channel.heard.Ready :=
  hready.turn.readAll.foldl_hear _ channel.outbound.exists_flight_of_mem_turn

-- Whatever else is lost or refused, the last chunk of a round is the oldest flight, and the
-- receiver has it to its end.
theorem stop_le_confirmed_heard (hready : channel.Ready)
    (hopen : channel.outbound.finished = false) :
    ∃ oldest rest, channel.outbound.turn.1.flights = oldest :: rest ∧
      oldest.stop ≤ channel.heard.inbound.confirmed := by
  obtain ⟨oldest, rest, hflights, hchunks⟩ :=
    channel.outbound.turn_of_unfinished hready.fit.balanced hready.closed hready.limit hopen
  refine ⟨oldest, rest, hflights, ?_⟩
  have hfirst := hready.turn.readAll.foldl_hear channel.outbound.send.2 fun chunk hmem =>
    channel.outbound.exists_flight_of_mem_turn chunk (hchunks ▸ List.mem_append_left _ hmem)
  rw [Channel.heard, hchunks, List.foldl_append]
  exact hfirst.stop_le_confirmed_hear (buffer_foldl_hear _ _ (buffer_readAll _))
    (by rw [outbound_foldl_hear]; exact hflights)

theorem confirmed_heard_pos (hready : channel.Ready) : 0 < channel.heard.inbound.confirmed := by
  cases hfinished : channel.outbound.finished with
  | false =>
      obtain ⟨oldest, rest, hflights, hstop⟩ := hready.stop_le_confirmed_heard hfinished
      have hspan := (hready.turn.fit.balanced.tiles.mem oldest
        (hflights ▸ List.mem_cons_self)).2.1
      unfold Flight.stop at hstop
      omega
  | true =>
      -- all of the stream is acknowledged, and its FIN is part of it
      have hacked := hready.heard.fit.sound.acked
      rw [outbound_heard] at hacked
      have hbase : channel.outbound.turn.1.next - channel.outbound.turn.1.inFlight =
          channel.outbound.next - channel.outbound.inFlight := channel.outbound.base_turn
      obtain ⟨hfin, hempty⟩ := Bool.and_eq_true_iff.mp hfinished
      have hinFlight := hready.fit.balanced.inFlight_eq
      have hnext := hready.fit.sound.sends.next_eq
      rw [List.isEmpty_iff.mp hempty, List.map_nil, Outbound.spans_nil] at hinFlight
      rw [hfin, Bool.toNat_true] at hnext
      omega

theorem round (hready : channel.Ready) : channel.round.Ready :=
  hready.heard.answer hready.confirmed_heard_pos

theorem iterate_round (hready : channel.Ready) (count : Nat) :
    (Channel.round^[count] channel).Ready := by
  induction count with
  | zero => exact hready
  | succ count ih =>
      rw [Function.iterate_succ_apply']
      exact ih.round

-- The acknowledgment at the end of a round covers the oldest flight.
theorem base_lt_round (hready : channel.Ready) (hopen : channel.outbound.finished = false) :
    channel.outbound.base < channel.round.outbound.base := by
  obtain ⟨oldest, rest, hflights, hstop⟩ := hready.stop_le_confirmed_heard hopen
  have hbalanced : channel.outbound.turn.1.Balanced := hready.turn.fit.balanced
  have hanswer : channel.round.outbound =
      { channel.outbound.turn.1 with
        window := channel.heard.inbound.feedback.window }.acknowledge
          channel.heard.inbound.confirmed := by
    rw [Channel.round, Channel.answer, hready.heard.receive_feedback hready.confirmed_heard_pos,
      outbound_heard]
  have hcovered := Outbound.stop_le_of_acknowledge
    { channel.outbound.turn.1 with window := channel.heard.inbound.feedback.window }
    hbalanced.tiles hbalanced.inFlight_le hflights _ hstop
  rw [← hanswer] at hcovered
  obtain ⟨hstart, hspan, -⟩ := hbalanced.tiles.mem oldest (hflights ▸ List.mem_cons_self)
  have hbase := channel.outbound.base_turn
  unfold Flight.stop at hcovered
  unfold Outbound.base at hbase ⊢
  omega

theorem finished_round (hready : channel.Ready) (hfinished : channel.outbound.finished = true) :
    channel.round.outbound.finished = true := by
  have hturn := channel.outbound.turn_of_finished hready.fit.balanced hfinished
  have hheard := hready.heard.fit.sound.sends.settles_receive channel.heard.inbound.feedback
  exact hheard.finished (by rw [outbound_heard]; exact hturn.1)

theorem remaining_eq (hready : channel.Ready) :
    channel.remaining = channel.written.length + 2 - channel.outbound.base := by
  have hnext := hready.fit.next_le
  have hinFlight := hready.fit.balanced.inFlight_le
  unfold remaining Outbound.base
  omega

-- What is not finished gets on.
theorem remaining_round_lt (hready : channel.Ready) (hopen : channel.outbound.finished = false) :
    channel.round.remaining < channel.remaining := by
  have hbase := hready.base_lt_round hopen
  have hnext := hready.round.fit.next_le
  rw [written_round] at hnext
  rw [hready.remaining_eq, hready.round.remaining_eq, written_round]
  unfold Outbound.base at *
  omega

-- When nothing remains, the FIN is acknowledged too.
theorem finished_of_remaining (hready : channel.Ready) (hnone : channel.remaining = 0) :
    channel.outbound.finished = true := by
  have hnext := hready.fit.sound.sends.next_eq
  have hpopped := hready.fit.sound.sends.input.popped_le
  have hsyn := Bool.toNat_le channel.outbound.synSent
  have hfin := Bool.toNat_le channel.outbound.finSent
  have htiles := hready.fit.balanced.tiles
  unfold remaining at hnone
  have hended : channel.outbound.finSent = true := by
    by_contra hopen
    rw [eq_false_of_ne_true hopen, Bool.toNat_false] at hnext
    omega
  have hflights : channel.outbound.flights = [] := by
    by_contra hwaits
    obtain ⟨oldest, rest, hflights⟩ := List.exists_cons_of_ne_nil hwaits
    obtain ⟨hlower, hspan, hupper⟩ := htiles.mem oldest (hflights ▸ List.mem_cons_self)
    unfold Flight.stop at hupper
    omega
  rw [Outbound.finished, hended, hflights]
  rfl

-- As long as the sender is not finished, each of the rounds has made a difference.
theorem remaining_add_le (hready : channel.Ready) (count : Nat)
    (hopen : (Channel.round^[count] channel).outbound.finished = false) :
    (Channel.round^[count] channel).remaining + count ≤ channel.remaining := by
  induction count with
  | zero => exact Nat.le_refl _
  | succ count ih =>
      have hbefore := hready.iterate_round count
      rw [Function.iterate_succ_apply'] at hopen ⊢
      have hstill : (Channel.round^[count] channel).outbound.finished = false := by
        by_contra hfinished
        rw [hbefore.finished_round (eq_true_of_ne_false hfinished)] at hopen
        cases hopen
      have hless := hbefore.remaining_round_lt hstill
      have hall := ih hstill
      omega

theorem finished_iterate_round (hready : channel.Ready) (count : Nat)
    (hcount : channel.remaining ≤ count) :
    (Channel.round^[count] channel).outbound.finished = true := by
  by_contra hopen
  have hstill := eq_false_of_ne_true hopen
  have hall := hready.remaining_add_le count hstill
  exact hopen ((hready.iterate_round count).finished_of_remaining (by omega))

end Ready

theorem buffer_iterate_round (channel : Channel) (count : Nat) (hcount : 0 < count) :
    (round^[count] channel).inbound.stream.buffer = [] := by
  obtain ⟨before, rfl⟩ := Nat.exists_eq_succ_of_ne_zero (Nat.ne_of_gt hcount)
  rw [Function.iterate_succ_apply']
  exact buffer_round _

-- However the network has treated a closed stream: once it lets everything through, each
-- round gets the sender on until it is finished, which takes no more rounds than there are
-- sequence numbers without acknowledgment. The receiver has the whole stream then, and after
-- a round its readers have it, too.
theorem recovers (senderCapacity receiverCapacity : Nat) (initial : SeqNo) (timeout : Millis)
    (payloadLimit : Nat) (moves : List Move) (channel : Channel)
    (hrun : (start senderCapacity receiverCapacity initial timeout payloadLimit).run? moves =
      some channel)
    (hroom : 0 < channel.inbound.stream.capacity) (hlimit : 0 < channel.outbound.payloadLimit)
    (hclosed : channel.outbound.input.closed = true)
    (hwhole : channel.outbound.input.failed = false)
    (hunfailed : channel.inbound.stream.failed = false)
    (hindex : channel.written.length + 2 < SeqNo.indexLimit) :
    (∀ count, (round^[count] channel.discard).outbound.finished = false →
      (round^[count + 1] channel.discard).remaining < (round^[count] channel.discard).remaining) ∧
    ∀ count, 2 + channel.written.length - (channel.outbound.next - channel.outbound.inFlight) ≤
        count →
      let after := round^[count] channel.discard
      after.outbound.finished = true ∧ after.inbound.stream.closed = true ∧
        after.taken ++ after.inbound.stream.buffer = channel.written ∧
        (0 < count → after.taken = channel.written) := by
  have hfit := (fit_start senderCapacity receiverCapacity initial timeout payloadLimit).run moves
    hrun
  have hready : channel.discard.Ready :=
    Ready.discard ⟨hfit, hclosed, hwhole, hunfailed, hroom, hlimit, hindex⟩
  constructor
  · intro count hopen
    rw [Function.iterate_succ_apply']
    exact (hready.iterate_round count).remaining_round_lt hopen
  · intro count hcount after
    have hremaining : channel.discard.remaining ≤ count := by
      have hbase : channel.discard.outbound.base =
          channel.outbound.next - channel.outbound.inFlight := rfl
      have hwritten : channel.discard.written = channel.written := rfl
      rw [hready.remaining_eq, hbase, hwritten]
      omega
    have hsound := (hready.iterate_round count).fit.sound
    have hfinished := hready.finished_iterate_round count hremaining
    have hall := hsound.closed_of_finished hfinished
    have hreceived := (hsound.received_whole hall).2
    rw [written_iterate_round] at hreceived
    refine ⟨hfinished, hall, hreceived, fun hpos => ?_⟩
    rw [buffer_iterate_round _ count hpos, List.append_nil] at hreceived
    exact hreceived

-- Three bytes for a reader with room for two. The SYN comes late and more than once, and the
-- first bytes get lost.
def lossyMoves : List Move :=
  [.outgoing (.push [1, 2, 3]) (.refl false), .outgoing .close (.refl false), .send, .elapse 1000,
    .deliver 1, .deliver 0, .report, .acknowledge 0, .send]

theorem recovers_lossy :
    ∃ channel, (start 8 2 ⟨4294967295⟩ 1000 4).run? lossyMoves = some channel ∧
      2 + channel.written.length - (channel.outbound.next - channel.outbound.inFlight) = 4 ∧
      channel.discard.outbound.finished = false ∧
      (round channel.discard).remaining < channel.discard.remaining ∧
      (round^[4] channel.discard).outbound.finished = true ∧
      (round^[4] channel.discard).inbound.stream.closed = true ∧
      (round^[4] channel.discard).taken = [1, 2, 3] := by
  have hlossy : ((start 8 2 ⟨4294967295⟩ 1000 4).run? lossyMoves).map (fun channel =>
      (channel.inbound.stream.capacity, channel.outbound.payloadLimit,
        channel.outbound.input.closed, channel.outbound.input.failed,
        channel.inbound.stream.failed, channel.written, channel.outbound.next,
        channel.outbound.inFlight, channel.discard.outbound.finished)) =
      some (2, 4, true, false, false, [1, 2, 3], 3, 2, false) := by cbv
  obtain ⟨channel, hrun, hresult⟩ := Option.map_eq_some_iff.mp hlossy
  simp only [Prod.mk.injEq] at hresult
  obtain ⟨hcapacity, hlimit, hclosed, hwhole, hunfailed, hwritten, hnext, hinFlight, hopen⟩ :=
    hresult
  have hrecovers := recovers 8 2 ⟨4294967295⟩ 1000 4 lossyMoves channel hrun
    (by rw [hcapacity]; decide) (by rw [hlimit]; decide) hclosed hwhole hunfailed
    (by rw [hwritten]; decide)
  have hbound :
      2 + channel.written.length - (channel.outbound.next - channel.outbound.inFlight) = 4 := by
    rw [hwritten, hnext, hinFlight]
    rfl
  obtain ⟨hfinished, hall, -, htaken⟩ := hrecovers.2 4 (Nat.le_of_eq hbound)
  exact ⟨channel, hrun, hbound, hopen, hrecovers.1 0 hopen, hfinished, hall,
    (htaken (by decide)).trans hwritten⟩

-- A sender that is finished needs no round, and without a round nobody reads what has arrived
-- before.
def unreadMoves : List Move :=
  [.outgoing (.push [1, 2, 3]) (.refl false), .outgoing .close (.refl false), .send, .deliver 0,
    .report, .acknowledge 0, .send, .deliver 1, .report, .acknowledge 1]

theorem unread_without_round :
    ∃ channel, (start 8 8 ⟨0⟩ 1000 4).run? unreadMoves = some channel ∧
      0 < channel.inbound.stream.capacity ∧ 0 < channel.outbound.payloadLimit ∧
      channel.outbound.input.closed = true ∧ channel.outbound.input.failed = false ∧
      channel.inbound.stream.failed = false ∧ channel.written.length + 2 < SeqNo.indexLimit ∧
      2 + channel.written.length - (channel.outbound.next - channel.outbound.inFlight) = 0 ∧
      channel.written = [1, 2, 3] ∧
      ∀ count ≤ 0, (round^[count] channel.discard).taken = [] := by
  have hunread : ((start 8 8 ⟨0⟩ 1000 4).run? unreadMoves).map (fun channel =>
      (channel.inbound.stream.capacity, channel.outbound.payloadLimit,
        channel.outbound.input.closed, channel.outbound.input.failed,
        channel.inbound.stream.failed, channel.written, channel.outbound.next,
        channel.outbound.inFlight, channel.discard.taken)) =
      some (8, 4, true, false, false, [1, 2, 3], 5, 0, []) := by cbv
  obtain ⟨channel, hrun, hresult⟩ := Option.map_eq_some_iff.mp hunread
  simp only [Prod.mk.injEq] at hresult
  obtain ⟨hcapacity, hlimit, hclosed, hwhole, hunfailed, hwritten, hnext, hinFlight, htaken⟩ :=
    hresult
  refine ⟨channel, hrun, by rw [hcapacity]; decide, by rw [hlimit]; decide, hclosed, hwhole,
    hunfailed, by rw [hwritten]; decide, by rw [hwritten, hnext, hinFlight]; rfl, hwritten, ?_⟩
  intro count hcount
  rw [Nat.le_zero.mp hcount]
  exact htaken

end UserTcp.Channel
