import UserTcp.Proofs.Channel.Delivery
import UserTcp.Proofs.Network.Run
import UserTcp.Proofs.Network.Sound
import Mathlib

namespace UserTcp.Exchange

theorem preserved_linked : Preserved Linked where
  swap := Linked.swap
  lose := fun hlinked hfewer => hlinked.lose hfewer
  perform := Linked.perform
  receive := Linked.receive

-- After any run, each stream is sound in the direction of each side.
theorem sound_channel (id peerId : Nat) (settings peerSettings : Settings) (moves : List Move)
    {exchange : Exchange Host Parcel}
    (hrun : (ofParties (Host.ofSettings id settings)
      (Host.ofSettings peerId peerSettings)).run? moves = some exchange) (side : Side) :
    ((exchange.peer side).channel (exchange.party side) (exchange.incoming side)
      (exchange.turnTo side).nearWire).Sound := by
  have hstart : (ofParties (Host.ofSettings id settings)
      (Host.ofSettings peerId peerSettings)).Relates Linked .near :=
    Linked.start id peerId settings peerSettings
  have hlinked := preserved_linked.relates (preserved_linked.run hstart moves hrun) side
  exact hlinked.back

-- Whatever the network does to the segments, as long as it brings none too late: what goes
-- into the stream at one side is the front of what was written at the other, and the stream
-- is closed only when it is all of that and nothing more can be written.
theorem delivers_in_order (id peerId : Nat) (settings peerSettings : Settings)
    (moves : List Move) (exchange : Exchange Host Parcel)
    (hrun : (ofParties (Host.ofSettings id settings)
      (Host.ofSettings peerId peerSettings)).run? moves = some exchange) (side : Side) :
    let receiver := exchange.party side
    let sender := exchange.peer side
    receiver.received.length = receiver.connection.inbound.stream.pushed ∧
      sender.written.length = sender.connection.outbound.input.pushed ∧
      receiver.received <+: sender.written ∧
      (receiver.connection.inbound.stream.closed = true →
        sender.connection.outbound.input.closed = true ∧
          receiver.received = sender.written) := by
  intro receiver sender
  have hsound := sound_channel id peerId settings peerSettings moves hrun side
  exact ⟨hsound.length_received, hsound.sends.input.pushed_eq.symm, hsound.received_prefix,
    hsound.received_whole⟩

-- Three bytes and the end of the stream on a bad way: the SYN is lost and goes out again,
-- it comes twice, the second time after the data, and the sequence numbers wrap around.
def wrapping : Settings := { Settings.standard with initial := ⟨4294967295⟩ }

def roughMoves : List Move :=
  [.call .near (.outgoing (.push [1, 2, 3]) rfl), .call .near (.outgoing .close rfl),
    .call .near .send, .lose .far 0, .call .near (.elapse 1000), .deliver .far 0 true,
    .deliver .near 0 true, .deliver .far 1 false, .deliver .far 0 false,
    .call .far (.incoming (.read 2) rfl), .deliver .near 1 false, .deliver .near 0 false]

theorem delivers_in_order_rough :
    ∃ exchange, (ofParties (Host.ofSettings 1 wrapping)
        (Host.ofSettings 2 Settings.standard)).run? roughMoves = some exchange ∧
      exchange.far.received = [1, 2, 3] ∧
      exchange.far.connection.inbound.stream.closed = true ∧
      exchange.far.received = exchange.near.written := by
  have hrough : ((ofParties (Host.ofSettings 1 wrapping)
      (Host.ofSettings 2 Settings.standard)).run? roughMoves).map (fun exchange =>
        (exchange.far.received, exchange.far.connection.inbound.stream.closed)) =
      some ([1, 2, 3], true) := by cbv
  obtain ⟨exchange, hrun, hresult⟩ := Option.map_eq_some_iff.mp hrough
  obtain ⟨hreceived, hclosed⟩ := Prod.mk.inj hresult
  have hdelivers := delivers_in_order 1 2 wrapping Settings.standard roughMoves exchange hrun .far
  exact ⟨exchange, hrun, hreceived, hclosed, (hdelivers.2.2.2 hclosed).2⟩

-- A side forgets only what the other side has received. When it has nothing more to wait
-- for, the other side has the whole stream.
theorem forgets_only_received (id peerId : Nat) (settings peerSettings : Settings)
    (moves : List Move) (exchange : Exchange Host Parcel)
    (hrun : (ofParties (Host.ofSettings id settings)
      (Host.ofSettings peerId peerSettings)).run? moves = some exchange) (side : Side) :
    let receiver := exchange.party side
    let sender := exchange.peer side
    let outbound := sender.connection.outbound
    let inbound := receiver.connection.inbound
    outbound.inFlight ≤ outbound.next ∧
      (inbound.initial = none → outbound.next = outbound.inFlight) ∧
      (∀ known, inbound.initial = some known → known = outbound.initial ∧
        outbound.next - outbound.inFlight ≤
          1 + inbound.stream.pushed + inbound.stream.closed.toNat) ∧
      (outbound.finished = true → inbound.stream.closed = true ∧
        inbound.stream.pushed = outbound.input.pushed ∧
        receiver.received = sender.written) := by
  intro receiver sender outbound inbound
  have hsound := sound_channel id peerId settings peerSettings moves hrun side
  have hinFlight : outbound.inFlight ≤ outbound.next := hsound.sends.inFlight_le
  have hacked : outbound.next - outbound.inFlight ≤ inbound.confirmed := hsound.acked
  refine ⟨hinFlight, ?_, ?_, ?_⟩
  · intro hnone
    rw [inbound.confirmed_of_none hnone] at hacked
    omega
  · intro known hknown
    rw [inbound.confirmed_of_some hknown] at hacked
    exact ⟨hsound.takes.initial_eq known hknown, hacked⟩
  · intro hfinished
    have hclosed := hsound.closed_of_finished hfinished
    have hwhole := (hsound.received_whole hclosed).2
    refine ⟨hclosed, ?_, hwhole⟩
    have hlen := hsound.length_received
    rw [hwhole] at hlen
    exact hlen.symm.trans hsound.sends.input.pushed_eq.symm

theorem forgets_only_received_rough :
    ∃ exchange, (ofParties (Host.ofSettings 1 wrapping)
        (Host.ofSettings 2 Settings.standard)).run? roughMoves = some exchange ∧
      exchange.near.connection.outbound.finished = true ∧
      exchange.far.connection.inbound.stream.closed = true ∧
      exchange.far.received = exchange.near.written := by
  have hrough : ((ofParties (Host.ofSettings 1 wrapping)
      (Host.ofSettings 2 Settings.standard)).run? roughMoves).map
        (fun exchange => exchange.near.connection.outbound.finished) = some true := by cbv
  obtain ⟨exchange, hrun, hfinished⟩ := Option.map_eq_some_iff.mp hrough
  have hforgets :=
    forgets_only_received 1 2 wrapping Settings.standard roughMoves exchange hrun .far
  obtain ⟨hclosed, -, hwhole⟩ := hforgets.2.2.2 hfinished
  exact ⟨exchange, hrun, hfinished, hclosed, hwhole⟩

end UserTcp.Exchange
