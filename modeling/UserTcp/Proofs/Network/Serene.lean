import UserTcp.Proofs.Channel.CalmSteps
import UserTcp.Proofs.Connection.Spares
import UserTcp.Proofs.Network.Queue

namespace UserTcp

-- One direction without loss, with some patience for probes.
def Channel.Steady (patience : Nat) (channel : Channel) : Prop :=
  channel.Heard ∧ ∃ stale fresh reach, channel.Calm patience stale fresh reach

-- Two hosts that are both well, and lose nothing of what they send to each other. How much
-- patience a sender has for probes depends on its settings.
structure Serene (patience : Settings → Nat) (host peer : Host) (ours theirs : List Parcel) :
    Prop where
  parting : Parting host peer ours theirs
  whole : host.connection.failed = false
  peerWhole : peer.connection.failed = false
  clean : ∀ parcel ∈ ours, parcel.segment.rst = false
  peerClean : ∀ parcel ∈ theirs, parcel.segment.rst = false
  out : (host.channel peer ours theirs).Steady (patience host.connection.settings)
  back : (peer.channel host theirs ours).Steady (patience peer.connection.settings)

namespace Serene

variable {patience : Settings → Nat} {host peer : Host} {ours theirs : List Parcel}

theorem swap (hserene : Serene patience host peer ours theirs) :
    Serene patience peer host theirs ours :=
  ⟨hserene.parting.swap, hserene.peerWhole, hserene.whole, hserene.peerClean, hserene.clean,
    hserene.back, hserene.out⟩

theorem start (patience : Settings → Nat) (id peerId : Nat) (settings peerSettings : Settings)
    (hroomy : 0 < settings.capacity) (hpeerRoomy : 0 < peerSettings.capacity) :
    Serene patience (Host.ofSettings id settings) (Host.ofSettings peerId peerSettings) [] [] where
  parting := Parting.start id peerId settings peerSettings
  whole := rfl
  peerWhole := rfl
  clean := fun _ hmem => absurd hmem List.not_mem_nil
  peerClean := fun _ hmem => absurd hmem List.not_mem_nil
  out := ⟨fun _ => .inl rfl, _, _, _, Channel.calm_start _ settings.capacity peerSettings.capacity
    settings.initial settings.timeout settings.payloadLimit hpeerRoomy⟩
  back := ⟨fun _ => .inl rfl, _, _, _, Channel.calm_start _ peerSettings.capacity settings.capacity
    peerSettings.initial peerSettings.timeout peerSettings.payloadLimit hroomy⟩

section Emission

variable {connection : Connection} {segments : List Segment}

theorem clean_append (hspeaks : connection.Speaks segments)
    (hclean : ∀ parcel ∈ ours, parcel.segment.rst = false) :
    ∀ parcel ∈ ours ++ segments.map connection.stamp, parcel.segment.rst = false := by
  intro parcel hmem
  rcases List.mem_append.mp hmem with hold | hnew
  · exact hclean parcel hold
  · obtain ⟨segment, hsegment, rfl⟩ := List.mem_map.mp hnew
    exact (hspeaks segment hsegment).2

-- What a host sends are reports to its peer, one and all.
theorem calm_reply {count : Nat} {stale fresh : List Flight} {reach : Nat}
    (hcalm : (peer.channel host theirs ours).Calm count stale fresh reach)
    (hparting : Parting host peer ours theirs)
    (hspeaks : host.connection.Speaks segments) :
    (peer.channel host theirs (ours ++ segments.map host.connection.stamp)).Calm count stale fresh
      reach := by
  have hreply := hcalm.reply hparting.linked.back hparting.leaves.orderly
    ((segments.map host.connection.stamp).map Parcel.report) ?_
  · unfold Host.channel
    rw [List.map_append]
    exact hreply
  · intro report hmem
    obtain ⟨parcel, hparcel, rfl⟩ := List.mem_map.mp hmem
    obtain ⟨segment, hsegment, rfl⟩ := List.mem_map.mp hparcel
    exact ⟨rfl, congrArg Feedback.window (hspeaks segment hsegment).1⟩

theorem heard_reply (hheard : (peer.channel host theirs ours).Heard) :
    (peer.channel host theirs (ours ++ segments.map host.connection.stamp)).Heard := by
  have hreply := Channel.heard_report hheard ((segments.map host.connection.stamp).map Parcel.report)
  unfold Host.channel
  rw [List.map_append]
  exact hreply

end Emission

-- A host sends what it can.
theorem steady_send {count : Nat} (hparting : Parting host peer ours theirs)
    (hwhole : host.connection.failed = false)
    (hsteady : (host.channel peer ours theirs).Steady count) :
    ((host.act host.connection.send).1.channel peer
      (ours ++ (host.act host.connection.send).2) theirs).Steady count := by
  obtain ⟨hheard, stale, fresh, reach, hcalm⟩ := hsteady
  have hsound := hparting.linked.out
  have hafter := hparting.linked.acted_send.out
  have houtbound := Connection.outbound_send_of_whole hwhole
  have hfollows := Connection.follows_send hafter.sends hafter.inFlight_le
  have hkept : ∀ flight ∈ (host.act host.connection.send).2.map Parcel.flight,
      0 < flight.chunk.span → flight ∈ host.connection.send.1.outbound.flights := by
    intro flight hmem hspan
    obtain ⟨parcel, hparcel, rfl⟩ := List.mem_map.mp hmem
    obtain ⟨segment, hsegment, rfl⟩ := List.mem_map.mp hparcel
    rcases host.connection.emits_send.chunk segment hsegment with hempty | hflight
    · exact absurd hempty (Nat.ne_of_gt hspan)
    · exact Linked.flight_stamp host.connection.send.1 segment hflight
  rw [houtbound] at hfollows hkept
  unfold Host.channel
  rw [List.map_append, show (host.act host.connection.send).1.connection.outbound =
    host.connection.outbound.send.1 from houtbound]
  exact ⟨Channel.heard_send hsound hheard _, _, _, _, hcalm.send hfollows hkept⟩

-- Two hosts that are well stay so when one of them sends, as long as the other will hear that
-- all has come.
theorem of_send (hparting : Parting host peer ours theirs) (hwhole : host.connection.failed = false)
    (hpeerWhole : peer.connection.failed = false)
    (hclean : ∀ parcel ∈ ours, parcel.segment.rst = false)
    (hpeerClean : ∀ parcel ∈ theirs, parcel.segment.rst = false)
    (hout : (host.channel peer ours theirs).Steady (patience host.connection.settings))
    (hback : ∃ stale fresh reach, (peer.channel host theirs ours).Calm
      (patience peer.connection.settings) stale fresh reach)
    (hheard : (peer.channel (host.act host.connection.send).1 theirs
      (ours ++ (host.act host.connection.send).2)).Heard) :
    Serene patience (host.act host.connection.send).1 peer
      (ours ++ (host.act host.connection.send).2) theirs := by
  obtain ⟨stale, fresh, reach, hcalm⟩ := hback
  have hspeaks := Connection.speaks_send hwhole hparting.leaves.unbroken
  have hacted := hparting.proceed hparting.linked.acted_send host.connection.continues_send
  have hsent : (peer.channel (host.act host.connection.send).1 theirs ours).Calm
      (patience peer.connection.settings) stale fresh reach := by
    simp only [Host.channel, Host.act, Connection.inbound_send]
    exact hcalm
  have hsettings : (host.act host.connection.send).1.connection.settings =
      host.connection.settings := host.connection.settings_send
  refine ⟨hparting.send, host.connection.failed_send.trans hwhole, hpeerWhole,
    clean_append hspeaks hclean, hpeerClean, ?_, hheard, stale, fresh, reach,
    calm_reply hsent hacted hspeaks⟩
  rw [hsettings]
  exact steady_send hparting hwhole hout

theorem send (hserene : Serene patience host peer ours theirs) :
    Serene patience (host.act host.connection.send).1 peer
      (ours ++ (host.act host.connection.send).2) theirs := by
  obtain ⟨hheard, hcalm⟩ := hserene.back
  have hstill : (peer.channel (host.act host.connection.send).1 theirs ours).Heard := by
    simp only [Host.channel, Host.act, Connection.inbound_send]
    exact hheard
  exact of_send hserene.parting hserene.whole hserene.peerWhole hserene.clean hserene.peerClean
    hserene.out hcalm (heard_reply hstill)

section Receive

variable {parcel : Parcel}

theorem timely (hserene : Serene patience host peer ours (parcel :: theirs)) :
    parcel.timely host = true := by
  obtain ⟨-, stale, fresh, reach, hcalm⟩ := hserene.back
  obtain ⟨-, stale', fresh', reach', hanswers⟩ := hserene.out
  refine (parcel.timely_iff host).mpr ⟨?_, fun ack hack => ?_⟩
  · exact hcalm.behind hserene.parting.leaves.orderly rfl
  · have hmem : parcel.report ∈ (host.channel peer ours (parcel :: theirs)).reports :=
      List.mem_cons_self
    exact hanswers.recent_report hserene.parting.linked.out hmem hack

theorem rst_head (hserene : Serene patience host peer ours (parcel :: theirs)) :
    parcel.segment.chunk.rst = false ∧ parcel.segment.feedback.rst = false :=
  Bool.or_eq_false_iff.mp (hserene.peerClean parcel List.mem_cons_self)

-- Nothing that comes breaks a host.
theorem whole_feed (hserene : Serene patience host peer ours (parcel :: theirs))
    (hindex : host.connection.outbound.next < SeqNo.indexLimit) :
    (host.connection.feed parcel.segment).failed = false := by
  obtain ⟨hchunk, hfeedback⟩ := hserene.rst_head
  obtain ⟨-, stale, fresh, reach, hcalm⟩ := hserene.out
  obtain ⟨houtbound, hinbound⟩ := host.connection.failed_eq_false.mp hserene.whole
  have hmem : parcel.report ∈ (host.channel peer ours (parcel :: theirs)).reports :=
    List.mem_cons_self
  refine (Connection.failed_eq_false _).mpr ⟨?_, ?_⟩
  · have hinput : (host.connection.outbound.receive parcel.segment.feedback).input =
        host.connection.outbound.input := by
      rcases hcalm.receive_cases hserene.parting.linked.out hmem hfeedback hindex with
        ⟨-, hsilent⟩ | ⟨ack, -, -, hreceive⟩
      · change (host.connection.outbound.receive parcel.segment.feedback) = _ at hsilent
        rw [hsilent]
        rfl
      · change (host.connection.outbound.receive parcel.segment.feedback) = _ at hreceive
        rw [hreceive, Outbound.input_acknowledge]
        rfl
    exact (congrArg Pipe.failed hinput).trans houtbound
  · exact (host.connection.inbound.gains_receive parcel.segment.chunk hchunk).failed_eq.trans hinbound

-- The host once it has taken the segment and before it answers.
def fed (host : Host) (parcel : Parcel) : Host :=
  { host with connection := (host.connection.feed parcel.segment).noteClose }

theorem parting_fed (hserene : Serene patience host peer ours (parcel :: theirs)) :
    Parting (fed host parcel) peer ours theirs :=
  (hserene.parting.feed parcel List.mem_cons_self hserene.timely).noteClose.lose
    (List.subset_cons_self parcel theirs)

theorem steady_fed (hserene : Serene patience host peer ours (parcel :: theirs))
    (hindex : host.connection.outbound.next < SeqNo.indexLimit) :
    ((fed host parcel).channel peer ours theirs).Steady
      (patience (fed host parcel).connection.settings) := by
  obtain ⟨hheard, stale, fresh, reach, hcalm⟩ := hserene.out
  have hsound := hserene.parting.linked.out
  have hrst := hserene.rst_head.2
  have hacked := hcalm.acknowledge hsound hserene.parting.left.orderly rfl hrst hindex
  have hstill := hcalm.heard_acknowledge hsound hheard rfl hrst hindex
  simp only [Host.channel, fed, Connection.outbound_noteClose, Connection.settings_noteClose]
  exact ⟨hstill, stale, fresh, reach, hacked⟩

theorem calm_fed (hserene : Serene patience host peer ours (parcel :: theirs))
    (hindex : peer.connection.outbound.next < SeqNo.indexLimit)
    (hguard : 0 < parcel.segment.chunk.span → host.connection.inbound.stream.free = 0 →
      peer.connection.outbound.retransmissions < patience peer.connection.settings) :
    ∃ stale fresh reach, (peer.channel (fed host parcel) theirs ours).Calm
      (patience peer.connection.settings) stale fresh reach := by
  obtain ⟨-, stale, fresh, reach, hcalm⟩ := hserene.back
  have hdelivered := hcalm.deliver hserene.parting.linked.back hserene.parting.leaves.orderly rfl
    hserene.rst_head.1 hindex hguard
  simp only [Host.channel, fed, Connection.inbound_noteClose]
  exact hdelivered

theorem whole_fed (hserene : Serene patience host peer ours (parcel :: theirs))
    (hindex : host.connection.outbound.next < SeqNo.indexLimit) :
    (fed host parcel).connection.failed = false :=
  (Connection.failed_noteClose _).trans (hserene.whole_feed hindex)

theorem receive_eq_fed (hserene : Serene patience host peer ours (parcel :: theirs))
    (hindex : host.connection.outbound.next < SeqNo.indexLimit)
    (hactive : host.connection.active = .ok true) :
    host.receive parcel = (fed host parcel).act (fed host parcel).connection.send := by
  rw [Host.receive, Connection.receive_of_active parcel.segment hactive, Connection.heed,
    if_neg (by rw [hserene.whole_feed hindex]; exact Bool.false_ne_true)]
  rfl

-- A segment with sequence numbers is answered, so the peer will hear that all has come.
theorem heard_receive (hserene : Serene patience host peer ours (parcel :: theirs))
    (hindex : peer.connection.outbound.next < SeqNo.indexLimit)
    (hwhole : (fed host parcel).connection.failed = false) :
    (peer.channel ((fed host parcel).act (fed host parcel).connection.send).1 theirs
      (ours ++ ((fed host parcel).act (fed host parcel).connection.send).2)).Heard := by
  obtain ⟨hheard, stale, fresh, reach, hcalm⟩ := hserene.back
  have hsound := hserene.parting.linked.back
  have horderly := hserene.parting.leaves.orderly
  have hinbound : (fed host parcel).connection.send.1.inbound =
      host.connection.inbound.receive parcel.segment.chunk := by
    rw [Connection.inbound_send, fed, Connection.inbound_noteClose]
    rfl
  by_cases hspan : 0 < parcel.segment.chunk.span
  · intro hall
    have hnext : 0 < peer.connection.outbound.next := by
      have hstop := (hsound.carried parcel.flight List.mem_cons_self hspan).1
      change parcel.start + parcel.segment.chunk.span ≤ peer.connection.outbound.next at hstop
      omega
    have hacked : ((fed host parcel).connection.send.1.inbound.initial.map fun _ =>
        (fed host parcel).connection.send.1.inbound.received) =
        some peer.connection.outbound.next := by
      cases hinitial : (fed host parcel).connection.send.1.inbound.initial with
      | none =>
          have hzero := Inbound.confirmed_of_none _ hinitial
          exact absurd (hzero.symm.trans hall) (Nat.ne_of_lt hnext)
      | some known =>
          exact congrArg some ((Inbound.confirmed_of_some _ hinitial).symm.trans hall)
    have howed : (fed host parcel).connection.ackOwed = true := by
      rw [fed, Connection.ackOwed_noteClose]
      simp only [Connection.feed, Connection.asksAck, hspan, decide_true, Bool.true_or, Bool.or_true]
    obtain ⟨segment, rest, hsegments⟩ :=
      List.exists_cons_of_ne_nil (Connection.send_ne_nil hwhole howed)
    refine .inr ⟨((fed host parcel).connection.send.1.stamp segment).report, ?_, hacked⟩
    simp only [Host.channel, Host.act, hsegments, List.map_append, List.map_cons]
    exact List.mem_append_right _ List.mem_cons_self
  · have hsame := hcalm.confirmed_receive_of_empty hsound horderly rfl hindex hspan
    refine heard_reply fun hall => hheard ?_
    change (fed host parcel).connection.send.1.inbound.confirmed = _ at hall
    rw [hinbound] at hall
    exact hsame.symm.trans hall

-- A host that does not listen any more has all that its peer sends, and nothing to wait for.
theorem inactive (hserene : Serene patience host peer ours (parcel :: theirs))
    (hinactive : host.connection.active = .ok false) : Serene patience host peer ours theirs := by
  obtain ⟨hfinished, hclosed, -⟩ := Connection.done_of_inactive hserene.whole hinactive
  obtain ⟨-, stale, fresh, reach, hcalm⟩ := hserene.back
  obtain ⟨-, stale', fresh', reach', hanswers⟩ := hserene.out
  have hskip := (hcalm.skip hserene.parting.linked.back hserene.parting.leaves.orderly rfl hclosed).1
  have hnone : host.connection.outbound.flights = [] :=
    List.isEmpty_iff.mp (Bool.and_eq_true_iff.mp hfinished).2
  exact ⟨hserene.parting.lose (List.subset_cons_self parcel theirs), hserene.whole,
    hserene.peerWhole, hserene.clean,
    fun other hmem => hserene.peerClean other (List.mem_cons_of_mem parcel hmem),
    ⟨fun _ => .inl hnone, stale', fresh', reach', hanswers.ignore rfl⟩,
    ⟨hserene.back.1, _, _, _, hskip⟩⟩

-- The oldest segment on the way comes to the host. When it finds no room its sender has some
-- patience left.
theorem receive (hserene : Serene patience host peer ours (parcel :: theirs))
    (hindex : host.connection.outbound.next < SeqNo.indexLimit)
    (hpeerIndex : peer.connection.outbound.next < SeqNo.indexLimit)
    (hfits : host.connection.DeadlineFits)
    (hguard : 0 < parcel.segment.chunk.span → host.connection.inbound.stream.free = 0 →
      peer.connection.outbound.retransmissions < patience peer.connection.settings) :
    Serene patience (host.receive parcel).1 peer (ours ++ (host.receive parcel).2) theirs := by
  obtain ⟨active, hactive⟩ := Connection.exists_active_iff.mpr hfits
  cases active with
  | false =>
      rw [host.receive_of_inactive parcel (Connection.not_active hactive), List.append_nil]
      exact hserene.inactive hactive
  | true =>
      rw [hserene.receive_eq_fed hindex hactive]
      exact of_send hserene.parting_fed (hserene.whole_fed hindex) hserene.peerWhole hserene.clean
        (fun other hmem => hserene.peerClean other (List.mem_cons_of_mem parcel hmem))
        (hserene.steady_fed hindex) (hserene.calm_fed hpeerIndex hguard)
        (hserene.heard_receive hpeerIndex (hserene.whole_fed hindex))

end Receive

-- With nothing on the way time may pass. At worst a probe goes out again.
theorem elapse (hserene : Serene patience host peer [] [])
    (hlimit : ∀ settings, patience settings ≤ settings.retransmissionLimit) (time : Millis) :
    Serene patience (host.act (host.connection.elapse time)).1 peer
      (host.act (host.connection.elapse time)).2 [] := by
  by_cases hticks : host.connection.Ticks time
  · obtain ⟨hheard, stale, fresh, reach, hcalm⟩ := hserene.out
    obtain ⟨hbackHeard, backStale, backFresh, backReach, hback⟩ := hserene.back
    have hsound := hserene.parting.linked.out
    obtain ⟨hcount, again, hagain, hsent, hwaited⟩ :=
      hcalm.wait hsound hserene.parting.left.orderly hheard rfl rfl time
    have helapse : host.connection.elapse time = (host.connection.elapsing time,
        (again.map Flight.chunk).map (host.connection.elapsing time).segment) := by
      rw [hsent]
      exact host.connection.elapse_of_patient time hticks
        (Nat.le_trans hcount (hlimit host.connection.settings))
    have hparting := hserene.parting.elapse time
    have hacted := hserene.parting.proceed (hserene.parting.linked.acted_elapse time)
      (host.connection.continues_elapse hsound.sends time)
    have hsends := hacted.linked.out.sends
    have hinFlight := hacted.linked.out.inFlight_le
    rw [helapse] at hparting hacted hsends hinFlight ⊢
    have hwhole := (host.connection.failed_elapsing time).trans hserene.whole
    have hspeaks := Connection.speaks_elapsing time hserene.whole hserene.parting.leaves.unbroken
      again hagain
    have hflights : ∀ flight ∈ again,
        flight ∈ (host.connection.elapsing time).outbound.flights := by
      intro flight hmem
      rw [Connection.elapsing, Outbound.flights_elapse]
      exact hagain flight hmem
    have hstamps := Connection.flights_stamp hsends hinFlight again hflights
    -- the peer does not notice how the time passes
    have hunheard : (peer.channel
        { host with connection := host.connection.elapsing time } [] []).Heard := hbackHeard
    have hunmoved : (peer.channel { host with connection := host.connection.elapsing time } []
        []).Calm (patience peer.connection.settings) backStale backFresh backReach := hback
    refine ⟨hparting, hwhole, hserene.peerWhole, clean_append hspeaks hserene.clean,
      hserene.peerClean, ?_, heard_reply hunheard, backStale, backFresh, backReach,
      calm_reply hunmoved hacted hspeaks⟩
    have hstill := Channel.heard_elapse hheard time again
    rw [← hstamps] at hstill hwaited
    exact ⟨hstill, _, [], reach, hwaited⟩
  · rw [Connection.elapse_of_not_ticks hticks]
    exact hserene

-- An application does no harm unless it breaks a stream itself.
theorem outgoing (hserene : Serene patience host peer ours theirs) (op : Pipe.Op)
    (hop : op.takes = false) (hwhole : op.breaks = false) :
    Serene patience (host.perform (.outgoing op hop)).1 peer ours theirs := by
  obtain ⟨hheard, stale, fresh, reach, hcalm⟩ := hserene.out
  obtain ⟨houtbound, hinbound⟩ := host.connection.failed_eq_false.mp hserene.whole
  have hparting := hserene.parting.perform (.outgoing op hop)
  rw [show (host.perform (.outgoing op hop)).2 = [] from rfl, List.append_nil] at hparting
  exact ⟨hparting, (Connection.failed_eq_false _).mpr
      ⟨(Pipe.failed_apply _ op hwhole).trans houtbound, hinbound⟩,
    hserene.peerWhole, hserene.clean, hserene.peerClean,
    ⟨hheard, stale, fresh, reach, hcalm.outgoing op⟩, hserene.back⟩

theorem incoming (hserene : Serene patience host peer ours theirs) (op : Pipe.Op)
    (hop : op.feeds = false) (hwhole : op.breaks = false) :
    Serene patience (host.perform (.incoming op hop)).1 peer ours theirs := by
  obtain ⟨hheard, stale, fresh, reach, hcalm⟩ := hserene.back
  obtain ⟨houtbound, hinbound⟩ := host.connection.failed_eq_false.mp hserene.whole
  have hparting := hserene.parting.perform (.incoming op hop)
  rw [show (host.perform (.incoming op hop)).2 = [] from rfl, List.append_nil] at hparting
  exact ⟨hparting, (Connection.failed_eq_false _).mpr
      ⟨houtbound, (Pipe.failed_apply _ op hwhole).trans hinbound⟩,
    hserene.peerWhole, hserene.clean, hserene.peerClean, hserene.out,
    Channel.heard_incoming hheard op hop, stale, fresh, reach, hcalm.incoming op hop⟩

end Serene

end UserTcp
