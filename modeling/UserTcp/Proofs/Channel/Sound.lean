import UserTcp.Proofs.Inbound.Takes
import UserTcp.Proofs.Outbound.Settles
import Mathlib.Data.Bool.Basic

namespace UserTcp

-- Feedback on its way, with the index that it acknowledges.
structure Report where
  acked : Option Nat
  feedback : Feedback

-- One direction of a connection: a sender, a receiver, and all that can come from one to
-- the other.
structure Channel where
  outbound : Outbound
  inbound : Inbound
  -- The bytes that the input has accepted, and those that readers took at the other end.
  written : List UInt8
  taken : List UInt8
  flights : List Flight
  reports : List Report

namespace Channel

def sent (channel : Channel) : List UInt8 :=
  channel.written.take channel.outbound.input.popped

-- A chunk with sequence numbers stands where it was sent.
def Carried (channel : Channel) (flight : Flight) : Prop :=
  0 < flight.chunk.span → flight.stop ≤ channel.outbound.next ∧
    flight.chunk.Placed channel.outbound.initial flight.start channel.sent
      channel.outbound.finSent

-- A report acknowledges nothing that the receiver does not have.
def Truthful (channel : Channel) (report : Report) : Prop :=
  report.feedback.ackno =
      report.acked.map (fun ack => SeqNo.ofIndex ack channel.outbound.initial) ∧
    ∀ ack, report.acked = some ack → ack ≤ channel.inbound.confirmed

-- What holds in both machines and between them at any time.
structure Sound (channel : Channel) : Prop where
  sends : channel.outbound.Sends channel.written
  inFlight_le : channel.outbound.inFlight ≤ 65535
  takes : channel.inbound.Takes channel.outbound.initial channel.sent channel.outbound.finSent
  taken_eq : channel.taken = channel.sent.take channel.inbound.stream.popped
  learned : channel.inbound.initial ≠ none → channel.outbound.synSent = true
  -- Whatever is no longer kept for another transmission has been received.
  acked : channel.outbound.next - channel.outbound.inFlight ≤ channel.inbound.confirmed
  carried : ∀ flight ∈ channel.flights, channel.Carried flight
  truthful : ∀ report ∈ channel.reports, channel.Truthful report

def start (senderCapacity receiverCapacity : Nat) (initial : SeqNo) (timeout : Millis)
    (payloadLimit : Nat) : Channel where
  outbound := Outbound.ofInput (Pipe.empty senderCapacity) initial timeout payloadLimit
  inbound := Inbound.ofCapacity receiverCapacity
  written := []
  taken := []
  flights := []
  reports := []

theorem sound_start (senderCapacity receiverCapacity : Nat) (initial : SeqNo) (timeout : Millis)
    (payloadLimit : Nat) :
    (start senderCapacity receiverCapacity initial timeout payloadLimit).Sound where
  sends := Outbound.sends_ofInput senderCapacity initial timeout payloadLimit
  inFlight_le := Nat.zero_le _
  takes := Inbound.takes_ofCapacity receiverCapacity initial
  taken_eq := rfl
  learned := fun hknown => absurd rfl hknown
  acked := Nat.le_refl 0
  carried := fun _ hmem => absurd hmem List.not_mem_nil
  truthful := fun _ hmem => absurd hmem List.not_mem_nil

namespace Sound

variable {channel : Channel}

theorem length_sent (hsound : channel.Sound) :
    channel.sent.length = channel.outbound.input.popped := by
  rw [sent, List.length_take, Nat.min_eq_left hsound.sends.input.popped_le]

-- The receiver does not get ahead of the sender.
theorem confirmed_le_next (hsound : channel.Sound) :
    channel.inbound.confirmed ≤ channel.outbound.next := by
  cases hinitial : channel.inbound.initial with
  | none =>
      rw [channel.inbound.confirmed_of_none hinitial]
      exact Nat.zero_le _
  | some known =>
      have hsyn := hsound.learned (by rw [hinitial]; exact Option.some_ne_none known)
      have hpushed := hsound.takes.pushed_le
      have hclosed : channel.inbound.stream.closed.toNat ≤ channel.outbound.finSent.toNat :=
        Bool.toNat_le_toNat (Bool.le_iff_imp.mpr fun hclosed => (hsound.takes.whole hclosed).1)
      rw [hsound.length_sent] at hpushed
      rw [channel.inbound.confirmed_of_some hinitial, Inbound.received, hsound.sends.next_eq, hsyn,
        Bool.toNat_true]
      omega

-- Nor the sender of the receiver, by more than a window.
theorem length_sent_lt (hsound : channel.Sound) :
    channel.sent.length < channel.inbound.stream.pushed + SeqNo.lap / 2 := by
  have hnext := hsound.sends.next_eq
  have hacked := hsound.acked
  have hinFlight := hsound.inFlight_le
  have hconfirmed : channel.inbound.confirmed ≤ channel.inbound.stream.pushed + 2 := by
    cases hinitial : channel.inbound.initial with
    | none =>
        rw [channel.inbound.confirmed_of_none hinitial]
        exact Nat.zero_le _
    | some known =>
        have hclosed := Bool.toNat_le channel.inbound.stream.closed
        rw [channel.inbound.confirmed_of_some hinitial, Inbound.received]
        omega
  rw [hsound.length_sent]
  simp only [SeqNo.lap]
  omega

end Sound

end Channel

end UserTcp
