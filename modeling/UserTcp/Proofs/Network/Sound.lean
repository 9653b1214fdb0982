import UserTcp.Proofs.Channel.Steps
import UserTcp.Proofs.Connection.Calls
import UserTcp.Proofs.Network.Basic

namespace UserTcp

def Parcel.flight (parcel : Parcel) : Flight :=
  ⟨parcel.start, parcel.segment.chunk⟩

def Parcel.report (parcel : Parcel) : Report :=
  ⟨parcel.acked, parcel.segment.feedback⟩

-- The stream from one host to another, with the parcels of the first host and of the second.
def Host.channel (sender receiver : Host) (parcels answers : List Parcel) : Channel where
  outbound := sender.connection.outbound
  inbound := receiver.connection.inbound
  written := sender.written
  taken := receiver.taken
  flights := parcels.map Parcel.flight
  reports := answers.map Parcel.report

-- Both streams between two hosts are sound. The parcels of the first host carry chunks of
-- one stream and reports of the other.
structure Linked (host peer : Host) (ours theirs : List Parcel) : Prop where
  out : (host.channel peer ours theirs).Sound
  back : (peer.channel host theirs ours).Sound

namespace Linked

variable {host peer : Host} {ours theirs : List Parcel}

theorem start (id peerId : Nat) (settings peerSettings : Settings) :
    Linked (Host.ofSettings id settings) (Host.ofSettings peerId peerSettings) [] [] where
  out := Channel.sound_start settings.capacity peerSettings.capacity settings.initial
    settings.timeout settings.payloadLimit
  back := Channel.sound_start peerSettings.capacity settings.capacity peerSettings.initial
    peerSettings.timeout peerSettings.payloadLimit

theorem swap (hlinked : Linked host peer ours theirs) : Linked peer host theirs ours :=
  ⟨hlinked.back, hlinked.out⟩

theorem lose (hlinked : Linked host peer ours theirs) {fewer : List Parcel}
    (hfewer : fewer ⊆ theirs) : Linked host peer ours fewer where
  out := hlinked.out.transmit _ _ (fun _ hmem => .inl hmem) fun report hmem => by
    exact .inl (List.map_subset _ hfewer hmem)
  back := hlinked.back.transmit _ _
    (fun flight hmem => .inl (List.map_subset _ hfewer hmem)) fun _ hmem => .inl hmem

-- A chunk that takes up sequence numbers gets the start of its flight.
theorem flight_stamp (connection : Connection) (segment : Segment)
    (hflight : ∃ flight ∈ connection.outbound.flights, flight.chunk = segment.chunk) :
    (connection.stamp segment).flight ∈ connection.outbound.flights := by
  obtain ⟨flight, hmem, hchunk⟩ := hflight
  cases hfind : connection.outbound.flights.find? fun flight =>
      flight.chunk = segment.chunk with
  | none =>
      have habsent := List.find?_eq_none.mp hfind flight hmem
      simp only [hchunk, decide_true, not_true_eq_false] at habsent
  | some found =>
      have hsame := List.find?_some hfind
      rw [decide_eq_true_eq] at hsame
      have hstart : (connection.stamp segment).start = found.start := by
        simp only [Connection.stamp, hfind]
      have hsegment : (connection.stamp segment).flight = found := by
        rw [Parcel.flight, hstart]
        exact congrArg (Flight.mk found.start) hsame.symm
      rw [hsegment]
      exact List.mem_of_find?_eq_some hfind

theorem emit (hlinked : Linked host peer ours theirs) {segments : List Segment}
    (hemits : host.connection.Emits segments) :
    Linked host peer (ours ++ segments.map host.connection.stamp) theirs where
  out := by
    refine hlinked.out.transmit _ _ ?_ fun _ hmem => .inl hmem
    intro flight hmem
    rw [List.map_append, List.mem_append] at hmem
    rcases hmem with hold | hnew
    · exact .inl hold
    · obtain ⟨parcel, hparcel, rfl⟩ := List.mem_map.mp hnew
      obtain ⟨segment, hsegment, rfl⟩ := List.mem_map.mp hparcel
      rcases hemits.chunk segment hsegment with hempty | hflight
      · exact .inr (.inr hempty)
      · exact .inr (.inl (flight_stamp host.connection segment hflight))
  back := by
    refine hlinked.back.transmit _ _ (fun _ hmem => .inl hmem) ?_
    intro report hmem
    rw [List.map_append, List.mem_append] at hmem
    rcases hmem with hold | hnew
    · exact .inl hold
    · obtain ⟨parcel, hparcel, rfl⟩ := List.mem_map.mp hnew
      obtain ⟨segment, hsegment, rfl⟩ := List.mem_map.mp hparcel
      exact .inr ⟨rfl, hemits.ackno segment hsegment⟩

theorem acted_send (hlinked : Linked host peer ours theirs) :
    Linked { host with connection := host.connection.send.1 } peer ours theirs where
  out := by
    simp only [Host.channel]
    rcases host.connection.outbound_send with hsame | hsent
    · rw [hsame]
      exact hlinked.out
    · rw [hsent]
      exact hlinked.out.send
  back := by
    simp only [Host.channel, Connection.inbound_send]
    exact hlinked.back

theorem send (hlinked : Linked host peer ours theirs) :
    Linked (host.act host.connection.send).1 peer
      (ours ++ (host.act host.connection.send).2) theirs :=
  hlinked.acted_send.emit host.connection.emits_send

theorem acted_elapse (hlinked : Linked host peer ours theirs) (time : Millis) :
    Linked { host with connection := (host.connection.elapse time).1 } peer ours theirs where
  out := hlinked.out.settle (host.connection.settles_elapse hlinked.out.sends time)
    (Nat.zero_le _)
  back := by
    simp only [Host.channel]
    rcases host.connection.inbound_elapse time with hsame | hfail
    · rw [hsame]
      exact hlinked.back
    · rw [hfail]
      exact hlinked.back.fail

theorem elapse (hlinked : Linked host peer ours theirs) (time : Millis) :
    Linked (host.act (host.connection.elapse time)).1 peer
      (ours ++ (host.act (host.connection.elapse time)).2) theirs :=
  (hlinked.acted_elapse time).emit (host.connection.emits_elapse time)

theorem outgoing (hlinked : Linked host peer ours theirs) (op : Pipe.Op)
    (hop : op.takes = false) :
    Linked (host.perform (.outgoing op hop)).1 peer ours theirs where
  out := hlinked.out.outgoing op hop
  back := hlinked.back

theorem incoming (hlinked : Linked host peer ours theirs) (op : Pipe.Op)
    (hop : op.feeds = false) :
    Linked (host.perform (.incoming op hop)).1 peer ours theirs where
  out := hlinked.out
  back := hlinked.back.incoming op hop

theorem perform (hlinked : Linked host peer ours theirs) (call : Host.Call) :
    Linked (host.perform call).1 peer (ours ++ (host.perform call).2) theirs := by
  cases call with
  | send => exact hlinked.send
  | elapse time => exact hlinked.elapse time
  | outgoing op hop =>
      rw [show (host.perform (.outgoing op hop)).2 = [] from rfl, List.append_nil]
      exact hlinked.outgoing op hop
  | incoming op hop =>
      rw [show (host.perform (.incoming op hop)).2 = [] from rfl, List.append_nil]
      exact hlinked.incoming op hop

-- Both halves of a segment come to the halves of the connection.
theorem feed (hlinked : Linked host peer ours theirs) (parcel : Parcel) (hmem : parcel ∈ theirs)
    (htimely : parcel.timely host = true) :
    Linked { host with connection := host.connection.feed parcel.segment } peer ours theirs := by
  obtain ⟨hstart, hacked⟩ := (parcel.timely_iff host).mp htimely
  exact ⟨hlinked.out.acknowledge parcel.report (List.mem_map_of_mem hmem) hacked,
    hlinked.back.deliver parcel.flight (List.mem_map_of_mem hmem) hstart⟩

theorem receive (hlinked : Linked host peer ours theirs) (parcel : Parcel) (hmem : parcel ∈ theirs)
    (htimely : parcel.timely host = true) :
    Linked (host.receive parcel).1 peer (ours ++ (host.receive parcel).2) theirs := by
  have hfed := hlinked.feed parcel hmem htimely
  unfold Host.receive
  rcases host.connection.receive_cases parcel.segment with hsame | hbroken | hanswered
  · rw [hsame]
    exact hlinked.emit host.connection.emits_nil
  · rw [hbroken]
    exact hfed.emit (host.connection.feed parcel.segment).emits_nil
  · rw [hanswered]
    have hnoted : Linked { host with
        connection := (host.connection.feed parcel.segment).noteClose } peer ours theirs := by
      constructor
      · simp only [Host.channel, Connection.outbound_noteClose]
        exact hfed.out
      · simp only [Host.channel, Connection.inbound_noteClose]
        exact hfed.back
    exact hnoted.send

end Linked

end UserTcp
