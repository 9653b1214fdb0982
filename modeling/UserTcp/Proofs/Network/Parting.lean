import UserTcp.Proofs.Channel.Delivery
import UserTcp.Proofs.Connection.Continues
import UserTcp.Proofs.Network.Run
import UserTcp.Proofs.Network.Sound
import Mathlib

namespace UserTcp

-- How a host that will not linger leaves its peer. Its FIN comes after that of the peer, so
-- every segment with the FIN acknowledges all that the peer has to send, and who takes the
-- FIN takes the acknowledgment with it.
structure Leaves (host peer : Host) (ours : List Parcel) : Prop where
  unbroken : host.connection.outbound.Unbroken
  orderly : host.connection.inbound.Orderly
  announced : peer.connection.inbound.reassembly.finalIndex ≠ none →
    host.connection.outbound.finSent = true
  closed : host.connection.lingers = false → host.connection.inbound.stream.closed = true
  stays : host.connection.lingers = false → peer.connection.lingers = true
  told : host.connection.lingers = false → host.connection.failed = false →
    ∀ parcel ∈ ours, parcel.segment.chunk.fin = true →
      parcel.acked = some peer.connection.outbound.next ∧ parcel.segment.rst = false
  heard : host.connection.lingers = false → host.connection.failed = false →
    peer.connection.outbound.next < SeqNo.indexLimit →
      peer.connection.inbound.reassembly.finalIndex ≠ none →
        peer.connection.outbound.finished = true

-- Two hosts, either of which may leave the other.
structure Parting (host peer : Host) (ours theirs : List Parcel) : Prop where
  linked : Linked host peer ours theirs
  leaves : Leaves host peer ours
  left : Leaves peer host theirs

namespace Leaves

variable {host peer : Host} {ours : List Parcel}

theorem start (id peerId : Nat) (settings peerSettings : Settings) :
    Leaves (Host.ofSettings id settings) (Host.ofSettings peerId peerSettings) [] where
  unbroken := fun _ _ hmem => absurd hmem List.not_mem_nil
  orderly := Inbound.orderly_ofCapacity settings.capacity
  announced := fun htold => absurd rfl htold
  closed := fun hlingers => absurd hlingers.symm Bool.false_ne_true
  stays := fun _ => rfl
  told := fun _ _ _ hmem => absurd hmem List.not_mem_nil
  heard := fun _ _ _ htold => absurd rfl htold

theorem lose (hleaves : Leaves host peer ours) {fewer : List Parcel} (hfewer : fewer ⊆ ours) :
    Leaves host peer fewer where
  unbroken := hleaves.unbroken
  orderly := hleaves.orderly
  announced := hleaves.announced
  closed := hleaves.closed
  stays := hleaves.stays
  told := fun hlingers hwhole parcel hmem => hleaves.told hlingers hwhole parcel (hfewer hmem)
  heard := hleaves.heard

-- The host goes on.
theorem proceed (hleaves : Leaves host peer ours) {after : Host}
    (hcontinues : Connection.Continues host.connection after.connection) :
    Leaves after peer ours where
  unbroken := hcontinues.outbound.unbroken hleaves.unbroken
  orderly := hleaves.orderly.persist hcontinues.inbound
  announced := fun htold => (hcontinues.outbound.ended (hleaves.announced htold)).1
  closed := by
    rw [hcontinues.lingers_eq, hcontinues.inbound.closed_eq]
    exact hleaves.closed
  stays := by
    rw [hcontinues.lingers_eq]
    exact hleaves.stays
  told := by
    rw [hcontinues.lingers_eq]
    exact fun hlingers hwhole => hleaves.told hlingers (hcontinues.whole hwhole)
  heard := by
    rw [hcontinues.lingers_eq]
    exact fun hlingers hwhole => hleaves.heard hlingers (hcontinues.whole hwhole)

-- The peer goes on. It has nothing new to send when the host is about to leave.
theorem proceed_peer (hleaves : Leaves host peer ours) {after : Host}
    (hcontinues : Connection.Continues peer.connection after.connection)
    (hended : host.connection.inbound.stream.closed = true →
      peer.connection.outbound.finSent = true) : Leaves host after ours where
  unbroken := hleaves.unbroken
  orderly := hleaves.orderly
  announced := by
    rw [hcontinues.inbound.finalIndex_eq]
    exact hleaves.announced
  closed := hleaves.closed
  stays := by
    rw [hcontinues.lingers_eq]
    exact hleaves.stays
  told := by
    intro hlingers
    rw [(hcontinues.outbound.ended (hended (hleaves.closed hlingers))).2]
    exact hleaves.told hlingers
  heard := by
    intro hlingers
    rw [(hcontinues.outbound.ended (hended (hleaves.closed hlingers))).2,
      hcontinues.inbound.finalIndex_eq]
    exact fun hwhole hindex htold =>
      hcontinues.outbound.finished (hleaves.heard hlingers hwhole hindex htold)

end Leaves

namespace Parting

variable {host peer : Host} {ours theirs : List Parcel}

theorem start (id peerId : Nat) (settings peerSettings : Settings) :
    Parting (Host.ofSettings id settings) (Host.ofSettings peerId peerSettings) [] [] where
  linked := Linked.start id peerId settings peerSettings
  leaves := Leaves.start id peerId settings peerSettings
  left := Leaves.start peerId id peerSettings settings

theorem swap (hparting : Parting host peer ours theirs) : Parting peer host theirs ours :=
  ⟨hparting.linked.swap, hparting.left, hparting.leaves⟩

theorem lose (hparting : Parting host peer ours theirs) {fewer : List Parcel}
    (hfewer : fewer ⊆ theirs) : Parting host peer ours fewer :=
  ⟨hparting.linked.lose hfewer, hparting.leaves, hparting.left.lose hfewer⟩

-- A stream that is closed at the host has been sent to its end.
theorem ended_of_closed (hparting : Parting host peer ours theirs)
    (hclosed : host.connection.inbound.stream.closed = true) :
    peer.connection.outbound.finSent = true :=
  (hparting.linked.back.takes.whole hclosed).1

theorem proceed (hparting : Parting host peer ours theirs) {after : Host}
    (hlinked : Linked after peer ours theirs)
    (hcontinues : Connection.Continues host.connection after.connection) :
    Parting after peer ours theirs where
  linked := hlinked
  leaves := hparting.leaves.proceed hcontinues
  left := hparting.left.proceed_peer hcontinues hparting.swap.ended_of_closed

-- What a host sends once it will not linger acknowledges all that its peer has to send.
theorem told_stamp (hparting : Parting host peer ours theirs) {segments : List Segment}
    (hemits : host.connection.Emits segments) (hlingers : host.connection.lingers = false)
    (hwhole : host.connection.failed = false) (segment : Segment) (hmem : segment ∈ segments)
    (hfin : segment.chunk.fin = true) :
    (host.connection.stamp segment).acked = some peer.connection.outbound.next ∧
      segment.rst = false := by
  have hclosed := hparting.leaves.closed hlingers
  obtain ⟨houtbound, hinbound⟩ := host.connection.failed_eq_false.mp hwhole
  obtain ⟨known, hknown⟩ := Option.ne_none_iff_exists'.mp
    (hparting.leaves.orderly.begun (hparting.leaves.orderly.ended hclosed))
  have hreceived : host.connection.inbound.received = peer.connection.outbound.next :=
    hparting.linked.back.received_of_closed hclosed
  constructor
  · rw [Connection.stamp, hknown, hreceived]
    rfl
  · refine Bool.or_eq_false_iff.mpr ⟨?_, ?_⟩
    · rcases hemits.chunk segment hmem with hempty | ⟨flight, hflight, hchunk⟩
      · rw [(segment.chunk.empty_of_span (by omega)).2] at hfin
        cases hfin
      · rw [← hchunk]
        exact hparting.leaves.unbroken houtbound flight hflight
    · refine eq_false_of_ne_true fun hrst => ?_
      rw [hemits.rst segment hmem hrst] at hinbound
      cases hinbound

theorem emit (hparting : Parting host peer ours theirs) {segments : List Segment}
    (hemits : host.connection.Emits segments) :
    Parting host peer (ours ++ segments.map host.connection.stamp) theirs where
  linked := hparting.linked.emit hemits
  left := hparting.left
  leaves :=
    { hparting.leaves with
      told := by
        intro hlingers hwhole parcel hmem hfin
        rcases List.mem_append.mp hmem with hold | hnew
        · exact hparting.leaves.told hlingers hwhole parcel hold hfin
        · obtain ⟨segment, hsegment, rfl⟩ := List.mem_map.mp hnew
          exact hparting.told_stamp hemits hlingers hwhole segment hsegment hfin }

theorem send (hparting : Parting host peer ours theirs) :
    Parting (host.act host.connection.send).1 peer
      (ours ++ (host.act host.connection.send).2) theirs := by
  have hacted : Parting { host with connection := host.connection.send.1 } peer ours theirs :=
    hparting.proceed hparting.linked.acted_send host.connection.continues_send
  exact hacted.emit host.connection.emits_send

theorem elapse (hparting : Parting host peer ours theirs) (time : Millis) :
    Parting (host.act (host.connection.elapse time)).1 peer
      (ours ++ (host.act (host.connection.elapse time)).2) theirs := by
  have hacted : Parting { host with connection := (host.connection.elapse time).1 } peer ours
      theirs :=
    hparting.proceed (hparting.linked.acted_elapse time)
      (host.connection.continues_elapse hparting.linked.out.sends time)
  exact hacted.emit (host.connection.emits_elapse time)

theorem perform (hparting : Parting host peer ours theirs) (call : Host.Call) :
    Parting (host.perform call).1 peer (ours ++ (host.perform call).2) theirs := by
  cases call with
  | send => exact hparting.send
  | elapse time => exact hparting.elapse time
  | outgoing op hop =>
      rw [show (host.perform (.outgoing op hop)).2 = [] from rfl, List.append_nil]
      exact hparting.proceed (hparting.linked.outgoing op hop)
        (host.connection.continues_outgoing op)
  | incoming op hop =>
      rw [show (host.perform (.incoming op hop)).2 = [] from rfl, List.append_nil]
      exact hparting.proceed (hparting.linked.incoming op hop)
        (host.connection.continues_incoming op hop)

-- A host that takes a FIN of a peer that is about to leave gets the acknowledgment of its own.
theorem finished_feed (hparting : Parting host peer ours theirs) (parcel : Parcel)
    (hmem : parcel ∈ theirs) (hlingers : peer.connection.lingers = false)
    (hwhole : peer.connection.failed = false)
    (hindex : host.connection.outbound.next < SeqNo.indexLimit)
    (hfin : parcel.segment.chunk.fin = true) :
    (host.connection.feed parcel.segment).outbound.finished = true := by
  have hsound := hparting.linked.out
  obtain ⟨hacked, hrst⟩ := hparting.left.told hlingers hwhole parcel hmem hfin
  have hackno := (hsound.truthful parcel.report (List.mem_map_of_mem hmem)).1
  have hreport : parcel.report.acked = some host.connection.outbound.next := hacked
  rw [hreport] at hackno
  exact host.connection.outbound.finished_receive parcel.segment.feedback hsound.sends.tiles
    hsound.sends.inFlight_le
    (hparting.swap.ended_of_closed (hparting.left.closed hlingers))
    (Bool.or_eq_false_iff.mp hrst).2 hackno hindex

theorem feed (hparting : Parting host peer ours theirs) (parcel : Parcel) (hmem : parcel ∈ theirs)
    (htimely : parcel.timely host = true) :
    Parting { host with connection := host.connection.feed parcel.segment } peer ours theirs := by
  have hpersists := (hparting.linked.out.sends.settles_receive parcel.segment.feedback).persists
  have hwhole := host.connection.failed_of_failed_feed parcel.segment hparting.linked.out.sends
  have hcarried := hparting.linked.back.carried parcel.flight (List.mem_map_of_mem hmem)
  have hnext : (host.connection.feed parcel.segment).outbound.next =
      host.connection.outbound.next :=
    (hparting.linked.out.sends.settles_receive parcel.segment.feedback).next_eq
  refine ⟨hparting.linked.feed parcel hmem htimely, ?_, ?_⟩
  · constructor
    · exact hpersists.unbroken hparting.leaves.unbroken
    · exact hparting.leaves.orderly.receive parcel.segment.chunk
    · exact fun htold => (hpersists.ended (hparting.leaves.announced htold)).1
    · exact fun hlingers => host.connection.inbound.closed_receive parcel.segment.chunk
        (hparting.leaves.closed hlingers)
    · exact hparting.leaves.stays
    · exact fun hlingers hafter => hparting.leaves.told hlingers (hwhole hafter)
    · exact fun hlingers hafter => hparting.leaves.heard hlingers (hwhole hafter)
  · refine { hparting.left with announced := ?_, told := ?_, heard := ?_ }
    · intro htold
      cases hfin : parcel.segment.chunk.fin with
      | false =>
          exact hparting.left.announced
            (host.connection.inbound.finalIndex_receive parcel.segment.chunk hfin htold)
      | true =>
          exact ((hcarried (parcel.segment.chunk.span_pos_of_fin hfin)).2.fin_at hfin).1
    · simp only [hnext]
      exact hparting.left.told
    · simp only [hnext]
      intro hlingers hpeer hindex htold
      cases hfin : parcel.segment.chunk.fin with
      | false =>
          exact hpersists.finished (hparting.left.heard hlingers hpeer hindex
            (host.connection.inbound.finalIndex_receive parcel.segment.chunk hfin htold))
      | true => exact hparting.finished_feed parcel hmem hlingers hpeer hindex hfin

-- A host gives up lingering when all has come from its peer and its own FIN is not sent. So
-- its peer has not given it up, and no segment with the FIN is on its way.
theorem noteClose (hparting : Parting host peer ours theirs) :
    Parting { host with connection := host.connection.noteClose } peer ours theirs := by
  by_cases hpassive : host.connection.inbound.stream.closed = true ∧
      host.connection.outbound.finSent = false
  · obtain ⟨hclosed, hopen⟩ := hpassive
    have hnoted : host.connection.noteClose = { host.connection with lingers := false } := by
      rw [Connection.noteClose, hclosed, hopen]
      rfl
    have hunsent : host.connection.outbound.finSent ≠ true := by
      rw [hopen]
      exact Bool.false_ne_true
    have hstays : peer.connection.lingers ≠ false := fun hlingers =>
      hunsent (hparting.swap.ended_of_closed (hparting.left.closed hlingers))
    rw [hnoted]
    refine ⟨⟨hparting.linked.out, hparting.linked.back⟩, ?_, ?_⟩
    · refine { hparting.leaves with closed := ?_, stays := ?_, told := ?_, heard := ?_ }
      · exact fun _ => hclosed
      · exact fun _ => eq_true_of_ne_false hstays
      · intro _ _ parcel hmem hfin
        have hcarried := hparting.linked.out.carried parcel.flight (List.mem_map_of_mem hmem)
        exact absurd ((hcarried (parcel.segment.chunk.span_pos_of_fin hfin)).2.fin_at hfin).1 hunsent
      · exact fun _ _ _ htold => absurd (hparting.leaves.announced htold) hunsent
    · exact { hparting.left with stays := fun hlingers => absurd hlingers hstays }
  · have hsame : host.connection.noteClose = host.connection := by
      rw [Connection.noteClose, if_neg]
      simpa only [Bool.and_eq_true, Bool.not_eq_true'] using hpassive
    rw [hsame]
    exact hparting

theorem receive (hparting : Parting host peer ours theirs) (parcel : Parcel)
    (hmem : parcel ∈ theirs) (htimely : parcel.timely host = true) :
    Parting (host.receive parcel).1 peer (ours ++ (host.receive parcel).2) theirs := by
  have hfed := hparting.feed parcel hmem htimely
  unfold Host.receive
  rcases host.connection.receive_cases parcel.segment with hsame | hbroken | hanswered
  · rw [hsame]
    exact hparting.emit host.connection.emits_nil
  · rw [hbroken]
    exact hfed.emit (host.connection.feed parcel.segment).emits_nil
  · rw [hanswered]
    exact hfed.noteClose.send

end Parting

namespace Exchange

theorem preserved_parting : Preserved Parting where
  swap := Parting.swap
  lose := fun hparting hfewer => hparting.lose hfewer
  perform := Parting.perform
  receive := Parting.receive

-- Not both sides give up lingering. When one that has done so falls silent in good order, the
-- other has no more to wait for: all that it has sent is acknowledged, its FIN included. Its
-- indices have 64 bits: past that an acknowledgment would be taken for one of a lap before.
theorem leaves_nobody_waiting (id peerId : Nat) (settings peerSettings : Settings)
    (moves : List Move) (exchange : Exchange Host Parcel)
    (hrun : (ofParties (Host.ofSettings id settings)
      (Host.ofSettings peerId peerSettings)).run? moves = some exchange) :
    (exchange.near.connection.lingers = true ∨ exchange.far.connection.lingers = true) ∧
      ∀ side,
        let host := (exchange.party side).connection
        let peer := (exchange.peer side).connection
        peer.outbound.next < SeqNo.indexLimit → host.lingers = false → host.failed = false →
          host.active = .ok false → peer.outbound.finished = true := by
  have hstart : (ofParties (Host.ofSettings id settings)
      (Host.ofSettings peerId peerSettings)).Relates Parting .near :=
    Parting.start id peerId settings peerSettings
  have hparting := preserved_parting.run hstart moves hrun
  constructor
  · cases hlingers : exchange.near.connection.lingers with
    | true => exact .inl rfl
    | false => exact .inr (hparting.leaves.stays hlingers)
  · intro side host peer hindex hlingers hwhole hsilent
    have hside := preserved_parting.relates hparting side
    have hdone := (Connection.done_of_inactive hwhole hsilent).1
    have hclosed : peer.inbound.stream.closed = true := hside.linked.out.closed_of_finished hdone
    exact hside.leaves.heard hlingers hwhole hindex (hside.left.orderly.ended hclosed)

-- The near side closes first, and the acknowledgment of its FIN is lost. It comes again with
-- the FIN of the far side, which falls silent when that is acknowledged in turn.
def partingMoves : List Move :=
  [.call .near (.outgoing (.push [1, 2]) (.refl false)),
    .call .near (.outgoing .close (.refl false)), .call .near .send, .deliver .far 0 false,
    .deliver .near 0 false, .deliver .far 0 false, .lose .near 0,
    .call .far (.outgoing .close (.refl false)), .call .far .send, .deliver .near 0 true,
    .deliver .far 0 false]

theorem leaves_nobody_waiting_parted :
    ∃ exchange, (ofParties (Host.ofSettings 1 Settings.standard)
        (Host.ofSettings 2 Settings.standard)).run? partingMoves = some exchange ∧
      (exchange.near.connection.lingers = true ∨ exchange.far.connection.lingers = true) ∧
      exchange.far.connection.lingers = false ∧ exchange.far.connection.failed = false ∧
      exchange.far.connection.active = .ok false ∧
      exchange.near.connection.outbound.finished = true := by
  have hparted : ((ofParties (Host.ofSettings 1 Settings.standard)
      (Host.ofSettings 2 Settings.standard)).run? partingMoves).map (fun exchange =>
        (exchange.far.connection.lingers, exchange.far.connection.failed,
          exchange.far.connection.active, exchange.near.connection.outbound.next)) =
      some (false, false, .ok false, 4) := by cbv
  obtain ⟨exchange, hrun, hresult⟩ := Option.map_eq_some_iff.mp hparted
  simp only [Prod.mk.injEq] at hresult
  obtain ⟨hlingers, hwhole, hsilent, hnext⟩ := hresult
  have hleaves := leaves_nobody_waiting 1 2 Settings.standard Settings.standard partingMoves
    exchange hrun
  have hindex : exchange.near.connection.outbound.next < SeqNo.indexLimit := by
    rw [hnext]
    decide
  exact ⟨exchange, hrun, hleaves.1, hlingers, hwhole, hsilent,
    hleaves.2 .far hindex hlingers hwhole hsilent⟩

end Exchange

end UserTcp
