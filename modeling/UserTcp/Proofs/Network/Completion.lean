import UserTcp.Proofs.Network.Conversation
import UserTcp.Proofs.Network.Serene
import UserTcp.Proofs.Network.Settling

namespace UserTcp

namespace Outbound

variable {outbound : Outbound}

-- A sender whose stream has an end, and that can get there.
structure Committed (outbound : Outbound) : Prop where
  closed : outbound.input.closed = true
  limit : 0 < outbound.payloadLimit

-- A sender that is finished or waits for an acknowledgment.
def Underway (outbound : Outbound) : Prop :=
  outbound.finished = true ∨ outbound.flights ≠ []

protected theorem Committed.send (hcommitted : outbound.Committed) : outbound.send.1.Committed :=
  fill_keeps Committed _ (fun before hbefore _ _ _ =>
    ⟨by rw [cut_eq]; exact hbefore.closed, hbefore.limit⟩) outbound hcommitted

theorem Committed.settle (hcommitted : outbound.Committed) {after : Outbound} {ack : Nat}
    (hsettles : Settles outbound after ack) : after.Committed :=
  ⟨hsettles.closed_eq.trans hcommitted.closed, hsettles.payloadLimit_eq ▸ hcommitted.limit⟩

theorem Committed.underway_send (hcommitted : outbound.Committed) (hbalanced : outbound.Balanced) :
    outbound.send.1.Underway := by
  cases hfinished : outbound.finished with
  | true => exact .inl (outbound.persists_send.finished hfinished)
  | false =>
      exact .inr (outbound.flights_send_ne_nil hbalanced hcommitted.closed hcommitted.limit
        hfinished)

end Outbound

-- A connection that has not been told of any time, and whose lingering has a place on its clock.
structure Connection.Timeless (connection : Connection) : Prop where
  time_eq : connection.time = 0
  heardAt_eq : connection.heardAt = 0
  fits : connection.settings.LingerFits

namespace Connection.Timeless

variable {connection : Connection}

theorem deadlineFits (htimeless : connection.Timeless) : connection.DeadlineFits := by
  intro _
  rw [lingersUntil, htimeless.heardAt_eq]
  exact Nat.lt_of_le_of_lt (Nat.le_of_eq (Nat.zero_add _)) htimeless.fits

protected theorem send (htimeless : connection.Timeless) : connection.send.1.Timeless := by
  obtain ⟨htime, hheardAt⟩ := connection.times_send
  exact ⟨htime.trans htimeless.time_eq, hheardAt.trans htimeless.heardAt_eq,
    connection.settings_send.symm ▸ htimeless.fits⟩

-- What is heard now is heard at the beginning.
theorem noteClose_feed (htimeless : connection.Timeless) (segment : Segment) :
    (connection.feed segment).noteClose.Timeless := by
  have hfed : (connection.feed segment).Timeless :=
    ⟨htimeless.time_eq, htimeless.time_eq, htimeless.fits⟩
  unfold noteClose
  split
  · exact ⟨hfed.time_eq, hfed.heardAt_eq, hfed.fits⟩
  · exact hfed

end Connection.Timeless

-- Two hosts that have written all they have to say, and either of which has not heard of the
-- other yet or is on its way through its own stream.
structure Prepared (budget : Nat) (host peer : Host) (ours theirs : List Parcel) : Prop where
  serene : Serene (fun _ => 0) host peer ours theirs
  settling : Settling budget host peer ours theirs
  committed : host.connection.outbound.Committed
  peerCommitted : peer.connection.outbound.Committed
  begun : host.connection.inbound.initial = none ∨ host.connection.outbound.Underway
  peerBegun : peer.connection.inbound.initial = none ∨ peer.connection.outbound.Underway
  timeless : host.connection.Timeless
  peerTimeless : peer.connection.Timeless

-- And one of them has opened.
structure Conversing (budget : Nat) (host peer : Host) (ours theirs : List Parcel) : Prop extends
    Prepared budget host peer ours theirs where
  opened : host.connection.outbound.Underway ∨ peer.connection.outbound.Underway

namespace Prepared

variable {budget : Nat} {host peer : Host} {ours theirs : List Parcel}

theorem swap (hprepared : Prepared budget host peer ours theirs) :
    Prepared budget peer host theirs ours :=
  ⟨hprepared.serene.swap, hprepared.settling.swap, hprepared.peerCommitted, hprepared.committed,
    hprepared.peerBegun, hprepared.begun, hprepared.peerTimeless, hprepared.timeless⟩

theorem balanced (hprepared : Prepared budget host peer ours theirs) :
    host.connection.outbound.Balanced := by
  obtain ⟨-, stale, fresh, reach, hcalm⟩ := hprepared.serene.out
  exact hcalm.balanced

-- Whoever sends is underway from then on.
theorem send (hprepared : Prepared budget host peer ours theirs) :
    Conversing budget (host.act host.connection.send).1 peer
      (ours ++ (host.act host.connection.send).2) theirs := by
  have hsent : (host.act host.connection.send).1.connection.outbound =
      host.connection.outbound.send.1 :=
    Connection.outbound_send_of_whole hprepared.serene.whole
  have hunderway : (host.act host.connection.send).1.connection.outbound.Underway := by
    rw [hsent]
    exact hprepared.committed.underway_send hprepared.balanced
  refine ⟨⟨hprepared.serene.send, hprepared.settling.send, ?_, hprepared.peerCommitted,
    .inr hunderway, hprepared.peerBegun, hprepared.timeless.send, hprepared.peerTimeless⟩,
    .inl hunderway⟩
  rw [hsent]
  exact hprepared.committed.send

-- With an empty buffer there is room, so nothing that comes is refused.
theorem receive {parcel : Parcel} (hprepared : Prepared budget host peer ours (parcel :: theirs))
    (hdrained : host.connection.inbound.stream.buffer = [])
    (hindex : host.connection.outbound.next < SeqNo.indexLimit)
    (hpeerIndex : peer.connection.outbound.next < SeqNo.indexLimit) :
    0 < budget ∧ Conversing (budget - 1) (host.receive parcel).1 peer
      (ours ++ (host.receive parcel).2) theirs := by
  obtain ⟨hpos, hsettling⟩ := hprepared.settling.receive hprepared.serene.timely
  have hroom : host.connection.inbound.stream.free ≠ 0 := by
    obtain ⟨-, stale, fresh, reach, hcalm⟩ := hprepared.serene.back
    have hroomy : 0 < host.connection.inbound.stream.capacity := hcalm.roomy
    rw [Pipe.free, Pipe.buffered, hdrained, List.length_nil]
    omega
  have hfits := hprepared.timeless.deadlineFits
  have hserene := hprepared.serene.receive hindex hpeerIndex hfits fun _ hfull => absurd hfull hroom
  have hreceived : (host.receive parcel).1.connection.outbound.Committed ∧
      (host.receive parcel).1.connection.outbound.Underway ∧
        (host.receive parcel).1.connection.Timeless := by
    obtain ⟨active, hactive⟩ := Connection.exists_active_iff.mpr hfits
    cases active with
    | false =>
        rw [host.receive_of_inactive parcel (Connection.not_active hactive)]
        exact ⟨hprepared.committed,
          .inl (Connection.done_of_inactive hprepared.serene.whole hactive).1, hprepared.timeless⟩
    | true =>
        have hfed : (Serene.fed host parcel).connection.outbound =
            host.connection.outbound.receive parcel.segment.feedback := by
          rw [Serene.fed, Connection.outbound_noteClose]
          rfl
        have hsettles :=
          hprepared.serene.parting.linked.out.sends.settles_receive parcel.segment.feedback
        have hcommitted := hprepared.committed.settle hsettles
        rw [hprepared.serene.receive_eq_fed hindex hactive, Host.act,
          Connection.outbound_send_of_whole (hprepared.serene.whole_fed hindex), hfed]
        exact ⟨hcommitted.send,
          hcommitted.underway_send (hprepared.balanced.receive parcel.segment.feedback),
          (hprepared.timeless.noteClose_feed parcel.segment).send⟩
  obtain ⟨hcommitted, hunderway, htimeless⟩ := hreceived
  exact ⟨hpos, ⟨hserene, hsettling, hcommitted, hprepared.peerCommitted, .inr hunderway,
    hprepared.peerBegun, htimeless, hprepared.peerTimeless⟩, .inl hunderway⟩

end Prepared

theorem Host.debt_loaded (id : Nat) (settings : Settings) (data : List UInt8)
    (hfits : data.length ≤ settings.capacity) :
    (loaded id settings data).debt = 3 * (data.length + 2) := by
  rw [debt, written_loaded id settings data hfits]
  rfl

-- The host has read all that was said to it, and all that it had to say was heard.
structure Host.Done (host : Host) (heard : List UInt8) : Prop where
  taken_eq : host.taken = heard
  closed : host.connection.inbound.stream.closed = true
  finished : host.connection.outbound.finished = true
  inFlight_eq : host.connection.outbound.inFlight = 0
  retransmissions_eq : host.connection.outbound.retransmissions = 0
  whole : host.connection.failed = false

namespace Conversing

variable {budget : Nat} {host peer : Host} {ours theirs : List Parcel}

theorem swap (hconversing : Conversing budget host peer ours theirs) :
    Conversing budget peer host theirs ours :=
  ⟨hconversing.toPrepared.swap, hconversing.opened.symm⟩

theorem readAll (hconversing : Conversing budget host peer ours theirs) :
    Conversing budget host.readAll peer ours theirs :=
  ⟨⟨hconversing.serene.incoming _ rfl rfl, hconversing.settling.incoming _ rfl,
    hconversing.committed, hconversing.peerCommitted, hconversing.begun, hconversing.peerBegun,
    ⟨hconversing.timeless.time_eq, hconversing.timeless.heardAt_eq, hconversing.timeless.fits⟩,
    hconversing.peerTimeless⟩, hconversing.opened⟩

-- With nothing on the way nobody waits for anything.
theorem flights_eq_nil (hconversing : Conversing budget host peer [] []) :
    host.connection.outbound.flights = [] := by
  obtain ⟨hheard, stale, fresh, reach, hcalm⟩ := hconversing.serene.out
  exact hconversing.serene.parting.linked.out.flights_of_silent
    hconversing.serene.parting.left.orderly hheard rfl (hcalm.has_of_silent rfl)

theorem finished (hconversing : Conversing budget host peer [] []) :
    host.connection.outbound.finished = true := by
  have hours := hconversing.flights_eq_nil
  have htheirs := hconversing.swap.flights_eq_nil
  rcases hconversing.begun with hnone | hunderway
  · -- who has not heard of the other is the one that opened
    rcases hconversing.opened with hunderway | hpeer
    · exact hunderway.resolve_right fun hne => hne hours
    · have horderly := hconversing.serene.parting.leaves.orderly
      have hclosed := hconversing.serene.parting.linked.back.closed_of_finished
        (hpeer.resolve_right fun hne => hne htheirs)
      exact absurd hnone (horderly.begun (horderly.ended hclosed))
  · exact hunderway.resolve_right fun hne => hne hours

theorem done (hconversing : Conversing budget host peer [] [])
    (hdrained : host.connection.inbound.stream.buffer = []) : host.Done peer.written := by
  have hback := hconversing.serene.parting.linked.back
  have hclosed := hback.closed_of_finished hconversing.swap.finished
  have hflights := hconversing.flights_eq_nil
  have hbalanced := hconversing.balanced
  have hreceived : host.taken ++ host.connection.inbound.stream.buffer = peer.written :=
    (hback.received_whole hclosed).2
  rw [hdrained, List.append_nil] at hreceived
  refine ⟨hreceived, hclosed, hconversing.finished, ?_, hbalanced.settled hflights,
    hconversing.serene.whole⟩
  rw [hbalanced.inFlight_eq, hflights]
  rfl

end Conversing

namespace Exchange

variable {exchange next final : Exchange Host Parcel} {side : Side} {budget : Nat}

theorem conversing_readAll (hconversing : exchange.Relates (Conversing budget) side) :
    exchange.readAll.Relates (Conversing budget) side := by
  have hread := (Conversing.readAll hconversing).swap.readAll.swap
  cases side <;> exact hread

theorem exists_converse? (hfits : (exchange.party side).connection.DeadlineFits)
    (hwire : exchange.incoming side ≠ []) : ∃ next, exchange.converse? side = some next := by
  rw [← Option.isSome_iff_exists, converse?, Option.isSome_map]
  exact isSome_serve?_iff.mpr ⟨hwire, hfits⟩

theorem silent_or_converse (hfits : ∀ side, (exchange.party side).connection.DeadlineFits) :
    exchange.nearWire = [] ∧ exchange.farWire = [] ∨
      ∃ side next, exchange.converse? side = some next := by
  by_cases hnear : exchange.nearWire = []
  · by_cases hfar : exchange.farWire = []
    · exact .inl ⟨hnear, hfar⟩
    · exact .inr ⟨.near, exists_converse? (hfits .near) hfar⟩
  · exact .inr ⟨.far, exists_converse? (hfits .far) hnear⟩

-- Two sides that have written their parts and read all that has come so far.
structure Talks (relation : Host → Host → List Parcel → List Parcel → Prop)
    (data peerData : List UInt8) (exchange : Exchange Host Parcel) : Prop where
  relates : exchange.Relates relation .near
  drained : exchange.Drained
  written_near : exchange.near.written = data
  written_far : exchange.far.written = peerData

namespace Talks

variable {data peerData : List UInt8}

theorem short {relation : Host → Host → List Parcel → List Parcel → Prop}
    (htalks : exchange.Talks relation data peerData) (hindex : data.length + 2 < SeqNo.indexLimit)
    (hpeerIndex : peerData.length + 2 < SeqNo.indexLimit) : exchange.Short := by
  intro side
  cases side
  · exact htalks.written_near ▸ hindex
  · exact htalks.written_far ▸ hpeerIndex

theorem deadlineFits (htalks : exchange.Talks (Conversing budget) data peerData) (side : Side) :
    (exchange.party side).connection.DeadlineFits :=
  (htalks.relates.turn Conversing.swap side).timeless.deadlineFits

theorem greet (htalks : exchange.Talks (Prepared budget) data peerData) (side : Side) :
    (exchange.greet side).Talks (Conversing budget) data peerData where
  relates := by
    have hsent := Prepared.send (htalks.relates.turn Prepared.swap side)
    exact (Preserved.put side hsent).turn Conversing.swap .near
  drained := by
    have hkept : (exchange.party side).connection.send.1.inbound.stream.buffer = [] := by
      rw [Connection.inbound_send]
      exact htalks.drained side
    intro other
    have hother := htalks.drained other
    cases side <;> cases other
    · exact hkept
    · exact hother
    · exact hother
    · exact hkept
  written_near := by cases side <;> exact htalks.written_near
  written_far := by cases side <;> exact htalks.written_far

theorem greetAll (htalks : exchange.Talks (Conversing budget) data peerData) (openers : List Side) :
    (openers.foldl Exchange.greet exchange).Talks (Conversing budget) data peerData := by
  induction openers generalizing exchange with
  | nil => exact htalks
  | cons side rest ih =>
      have hprepared : exchange.Talks (Prepared budget) data peerData :=
        { htalks with relates := htalks.relates.toPrepared }
      exact ih (hprepared.greet side)

variable (htalks : exchange.Talks (Conversing budget) data peerData)
  (hindex : data.length + 2 < SeqNo.indexLimit)
  (hpeerIndex : peerData.length + 2 < SeqNo.indexLimit)
include htalks hindex hpeerIndex

theorem converse (hconverse : exchange.converse? side = some next) :
    0 < budget ∧ next.Talks (Conversing (budget - 1)) data peerData := by
  have hshort := htalks.short hindex hpeerIndex
  obtain ⟨served, hserve, rfl⟩ := Option.map_eq_some_iff.mp hconverse
  obtain ⟨parcel, rest, hwire, -, hnext⟩ := cases_of_serve hserve
  have hconversing := htalks.relates.turn Conversing.swap side
  unfold Relates at hconversing
  rw [hwire] at hconversing
  have hlinked := hconversing.serene.parting.linked
  obtain ⟨hpos, hafter⟩ := hconversing.toPrepared.receive (htalks.drained side)
    (Nat.lt_of_le_of_lt hlinked.out.sends.next_le (hshort side))
    (Nat.lt_of_le_of_lt hlinked.back.sends.next_le (hshort.peer side))
  exact ⟨hpos, (conversing_readAll (hnext _ hafter)).turn Conversing.swap .near,
    served.drained_readAll, (written_serve hserve .near).trans htalks.written_near,
    (written_serve hserve .far).trans htalks.written_far⟩

theorem converseAll (sides : List Side) (hconverse : exchange.converseAll? sides = some final) :
    sides.length ≤ budget ∧ final.Talks (Conversing (budget - sides.length)) data peerData := by
  induction sides generalizing exchange budget with
  | nil =>
      obtain rfl := Option.some.inj hconverse
      exact ⟨Nat.zero_le budget, htalks⟩
  | cons side rest ih =>
      simp only [converseAll?] at hconverse
      split at hconverse
      · cases hconverse
      · rename_i next hnext
        obtain ⟨hpos, hafter⟩ := htalks.converse hindex hpeerIndex hnext
        obtain ⟨hle, hfinal⟩ := ih hafter hconverse
        rw [List.length_cons]
        exact ⟨by omega, by rwa [Nat.sub_sub, Nat.add_comm] at hfinal⟩

-- As long as something is on the way it can come, and that cannot go on for ever.
theorem exists_silent :
    ∃ rest final, exchange.converseAll? rest = some final ∧ final.nearWire = [] ∧
      final.farWire = [] := by
  induction budget generalizing exchange with
  | zero =>
      rcases silent_or_converse htalks.deadlineFits with hsilent | ⟨side, next, hnext⟩
      · exact ⟨[], exchange, rfl, hsilent⟩
      · exact absurd (htalks.converse hindex hpeerIndex hnext).1 (Nat.lt_irrefl 0)
  | succ budget ih =>
      rcases silent_or_converse htalks.deadlineFits with hsilent | ⟨side, next, hnext⟩
      · exact ⟨[], exchange, rfl, hsilent⟩
      · obtain ⟨rest, final, hrest, hsilent⟩ := ih (htalks.converse hindex hpeerIndex hnext).2
        refine ⟨side :: rest, final, ?_, hsilent⟩
        rw [converseAll?, hnext]
        exact hrest

end Talks

section Start

variable (id peerId : Nat) (settings peerSettings : Settings) (data peerData : List UInt8)
  (hroomy : 0 < settings.capacity) (hpeerRoomy : 0 < peerSettings.capacity)
  (hfits : data.length ≤ settings.capacity) (hpeerFits : peerData.length ≤ peerSettings.capacity)
  (hlinger : settings.LingerFits) (hpeerLinger : peerSettings.LingerFits)
include hroomy hpeerRoomy hfits hpeerFits hlinger hpeerLinger

theorem prepared_start :
    Prepared (3 * (data.length + peerData.length + 4)) (Host.loaded id settings data)
      (Host.loaded peerId peerSettings peerData) [] [] := by
  have hserene : Serene (fun _ => 0) (Host.loaded id settings data)
      (Host.loaded peerId peerSettings peerData) [] [] := by
    have hstart := Serene.start (fun _ => 0) id peerId settings peerSettings hroomy hpeerRoomy
    have hours := (hstart.outgoing (.push data) rfl rfl).outgoing .close rfl rfl
    exact ((hours.swap.outgoing (.push peerData) rfl rfl).outgoing .close rfl rfl).swap
  have hparting := hserene.parting
  refine ⟨hserene, ⟨hparting, _, _,
    ⟨_, _, _, Channel.Flows.ofSound hparting.linked.out hparting.left.orderly, rfl⟩,
    ⟨_, _, _, Channel.Flows.ofSound hparting.linked.back hparting.leaves.orderly, rfl⟩, ?_⟩,
    ⟨rfl, settings.payloadLimit_pos⟩, ⟨rfl, peerSettings.payloadLimit_pos⟩, .inl rfl, .inl rfl,
    ⟨rfl, rfl, hlinger⟩, ⟨rfl, rfl, hpeerLinger⟩⟩
  rw [Host.debt_loaded id settings data hfits,
    Host.debt_loaded peerId peerSettings peerData hpeerFits]
  change 0 + 0 + _ + _ ≤ _
  omega

theorem talks_start (openers : List Side) (hopened : openers ≠ []) :
    (openers.foldl greet (ofParties (Host.loaded id settings data)
      (Host.loaded peerId peerSettings peerData))).Talks
        (Conversing (3 * (data.length + peerData.length + 4))) data peerData := by
  obtain ⟨first, rest, rfl⟩ := List.exists_cons_of_ne_nil hopened
  have hstart : (ofParties (Host.loaded id settings data)
      (Host.loaded peerId peerSettings peerData)).Talks
        (Prepared (3 * (data.length + peerData.length + 4))) data peerData := by
    refine ⟨prepared_start id peerId settings peerSettings data peerData hroomy hpeerRoomy hfits
      hpeerFits hlinger hpeerLinger, fun side => ?_, Host.written_loaded id settings data hfits,
      Host.written_loaded peerId peerSettings peerData hpeerFits⟩
    cases side <;> rfl
  exact (hstart.greet first).greetAll rest

end Start

-- Where nothing is lost, two sides get through without the alarm. Each has written all that it
-- has to say, one of them at least opens, and the parcels come in their turn and are read. It
-- can always go on until nothing is on the way, unless a clock of 64 bits is too short for ten
-- timeouts. Otherwise there is an end to it whichever way is served next, and with nothing on the
-- way both have heard all. Indices have 64 bits, enough for any stream that fits into a memory.
theorem completes_without_time (id peerId : Nat) (settings peerSettings : Settings)
    (data peerData : List UInt8) (openers sides : List Side) (exchange : Exchange Host Parcel)
    (hroomy : 0 < settings.capacity) (hpeerRoomy : 0 < peerSettings.capacity)
    (hfits : data.length ≤ settings.capacity) (hpeerFits : peerData.length ≤ peerSettings.capacity)
    (hindex : data.length + 2 < SeqNo.indexLimit)
    (hpeerIndex : peerData.length + 2 < SeqNo.indexLimit) (hopened : openers ≠ [])
    (hconverse : (openers.foldl greet (ofParties (Host.loaded id settings data)
      (Host.loaded peerId peerSettings peerData))).converseAll? sides = some exchange) :
    ((∃ rest final, exchange.converseAll? rest = some final ∧ final.nearWire = [] ∧
        final.farWire = []) ↔ settings.LingerFits ∧ peerSettings.LingerFits) ∧
      (settings.LingerFits → peerSettings.LingerFits →
        sides.length ≤ 3 * (data.length + peerData.length + 4)) ∧
      (exchange.nearWire = [] → exchange.farWire = [] →
        exchange.near.Done peerData ∧ exchange.far.Done data) := by
  have htalking : settings.LingerFits → peerSettings.LingerFits →
      sides.length ≤ 3 * (data.length + peerData.length + 4) ∧ exchange.Talks
        (Conversing (3 * (data.length + peerData.length + 4) - sides.length)) data peerData :=
    fun hlinger hpeerLinger =>
      (talks_start id peerId settings peerSettings data peerData hroomy hpeerRoomy hfits hpeerFits
        hlinger hpeerLinger openers hopened).converseAll hindex hpeerIndex sides hconverse
  have hlasting : ∀ rest {final}, exchange.converseAll? rest = some final →
      final.nearWire = [] → final.farWire = [] →
        settings.LingerFits ∧ peerSettings.LingerFits := by
    intro rest final hrest hnear hfar
    by_contra hunfit
    obtain ⟨side, hstranded⟩ := exists_stranded id peerId settings peerSettings data peerData
      hroomy hpeerRoomy hunfit openers hopened
    exact not_silent_of_stranded
      (stranded_converseAll (stranded_converseAll hstranded sides hconverse) rest hrest)
      ⟨hnear, hfar⟩
  refine ⟨⟨?_, ?_⟩, fun hlinger hpeerLinger => (htalking hlinger hpeerLinger).1,
    fun hnear hfar => ?_⟩
  · rintro ⟨rest, final, hrest, hnear, hfar⟩
    exact hlasting rest hrest hnear hfar
  · rintro ⟨hlinger, hpeerLinger⟩
    exact (htalking hlinger hpeerLinger).2.exists_silent hindex hpeerIndex
  · obtain ⟨hlinger, hpeerLinger⟩ := hlasting [] rfl hnear hfar
    have htalks := (htalking hlinger hpeerLinger).2
    have hconversing : Conversing _ exchange.near exchange.far exchange.nearWire exchange.farWire :=
      htalks.relates
    rw [hnear, hfar] at hconversing
    have hnearDone := hconversing.done (htalks.drained .near)
    have hfarDone := hconversing.swap.done (htalks.drained .far)
    rw [htalks.written_far] at hnearDone
    rw [htalks.written_near] at hfarDone
    exact ⟨hnearDone, hfarDone⟩

-- Both sides open. One has room for a byte at a time, so each byte but the first comes as a
-- probe.
def tight : Settings := { Settings.standard with capacity := 1, initial := ⟨4294967295⟩ }

def meeting : Exchange Host Parcel :=
  [Side.near, .far].foldl greet (ofParties (Host.loaded 1 Settings.standard [1, 2, 3])
    (Host.loaded 2 tight [4]))

def takingTurns : List Side := (List.replicate 6 [Side.far, .near]).flatten

theorem completes_without_time_tight :
    ∃ exchange, meeting.converseAll? takingTurns = some exchange ∧
      exchange.near.Done [4] ∧ exchange.far.Done [1, 2, 3] := by
  have htight : (meeting.converseAll? takingTurns).map (fun exchange =>
      (exchange.nearWire.length, exchange.farWire.length)) = some (0, 0) := by cbv
  obtain ⟨exchange, hconverse, hempty⟩ := Option.map_eq_some_iff.mp htight
  obtain ⟨hnear, hfar⟩ := Prod.mk.inj hempty
  have hcompletes := completes_without_time 1 2 Settings.standard tight [1, 2, 3] [4]
    [.near, .far] takingTurns exchange (by decide) (by decide) (by decide) (by decide) (by decide)
    (by decide) (by decide) hconverse
  obtain ⟨hnearDone, hfarDone⟩ := hcompletes.2.2 (List.length_eq_zero_iff.mp hnear)
    (List.length_eq_zero_iff.mp hfar)
  exact ⟨exchange, hconverse, hnearDone, hfarDone⟩

-- Ten of these timeouts have no place on a clock. The other side answers the SYN, but overflow cuts
-- the call with its answer short, and the exchange cannot go on.
def outlasting : Exchange Host Parcel :=
  let long : Settings :=
    { Settings.standard with timeout := 9223372036854775808, timeout_pos := by decide }
  [Side.near].foldl greet (ofParties (Host.loaded 1 long [1, 2, 3])
    (Host.loaded 2 Settings.standard [4]))

theorem completes_not_beyond_clock :
    ¬∃ sides final, outlasting.converseAll? sides = some final ∧ final.nearWire = [] ∧
      final.farWire = [] := by
  rintro ⟨sides, final, hconverse, hsilent⟩
  obtain ⟨side, hstranded⟩ := exists_stranded 1 2
    { Settings.standard with timeout := 9223372036854775808, timeout_pos := by decide }
    Settings.standard [1, 2, 3] [4] (by decide) (by decide)
    (fun hfits => absurd hfits.1 (by unfold Settings.LingerFits; decide)) [.near] (by decide)
  exact not_silent_of_stranded (stranded_converseAll hstranded sides hconverse) hsilent

end Exchange

end UserTcp
