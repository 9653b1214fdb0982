import UserTcp.Proofs.Network.Queue

namespace UserTcp

-- A flight that takes up sequence numbers is answered, and an answer can go out alone.
def Flight.weight (flight : Flight) : Nat :=
  if 0 < flight.chunk.span then 2 else 1

def weights (flights : List Flight) : Nat :=
  (flights.map Flight.weight).sum

-- What a host may still send without hearing anything new from its application: the numbers
-- that it has not used, and the acknowledgment that it owes.
def Host.debt (host : Host) : Nat :=
  3 * (host.written.length + 2 - host.connection.outbound.next) + host.connection.ackOwed.toNat

theorem Flight.weight_le (flight : Flight) : flight.weight ≤ 2 := by
  unfold weight
  split <;> decide

theorem weights_append (first second : List Flight) :
    weights (first ++ second) = weights first + weights second := by
  rw [weights, List.map_append, List.sum_append]
  rfl

theorem weights_cons (flight : Flight) (rest : List Flight) :
    weights (flight :: rest) = flight.weight + weights rest := by
  rw [weights, List.map_cons, List.sum_cons]
  rfl

theorem weights_stamp_le (connection : Connection) (chunks : List Chunk)
    (hspan : ∀ chunk ∈ chunks, 0 < chunk.span) :
    weights (((chunks.map connection.segment).map connection.stamp).map Parcel.flight) ≤
      2 * Outbound.spans chunks := by
  induction chunks with
  | nil => exact Nat.le_refl 0
  | cons chunk rest ih =>
      obtain ⟨hchunk, hrest⟩ := List.forall_mem_cons.mp hspan
      have hle := (connection.stamp (connection.segment chunk)).flight.weight_le
      have hih := ih hrest
      rw [List.map_cons, List.map_cons, List.map_cons, weights_cons, Outbound.spans_cons]
      omega

namespace Host

-- What goes out is taken off the debt, and with something to spare for each number used.
theorem debt_send (host : Host) (hsends : host.connection.send.1.outbound.Sends host.written) :
    weights ((host.act host.connection.send).2.map Parcel.flight) +
      (host.act host.connection.send).1.debt ≤ host.debt := by
  have hnext := host.connection.outbound.next_send
  have hle := hsends.next_le
  rcases host.connection.send_cases with ⟨-, hsend⟩ | ⟨-, ⟨hnone, howed, hsend⟩ | ⟨-, hsend⟩⟩
  · rw [act, hsend]
    exact Nat.le_of_eq (Nat.zero_add _)
  · have hweight : weights ((host.act host.connection.send).2.map Parcel.flight) = 1 := by
      rw [act, hsend]
      rfl
    rw [hnone, Outbound.spans_nil, Nat.add_zero] at hnext
    rw [hweight]
    simp only [debt, act, hsend, Connection.sending, hnext, howed, Bool.toNat_true,
      Bool.toNat_false]
    omega
  · have hweights := weights_stamp_le host.connection.sending host.connection.outbound.send.2
      fun chunk hmem => Outbound.span_pos_of_mem_fill _ _ chunk hmem
    rw [hsend] at hle
    simp only [debt, act, hsend, Connection.sending, Bool.toNat_false] at hle hweights ⊢
    omega

-- A parcel makes a host owe an acknowledgment at most, and only when it asks for one.
theorem debt_receive (host : Host) (parcel : Parcel)
    (hsends : host.connection.outbound.Sends host.written)
    (hafter : (host.receive parcel).1.connection.outbound.Sends host.written) :
    weights ((host.receive parcel).2.map Parcel.flight) + (host.receive parcel).1.debt ≤
      host.debt + (host.connection.asksAck parcel.segment.chunk).toNat := by
  have hnext : (host.connection.feed parcel.segment).outbound.next =
      host.connection.outbound.next := (hsends.settles_receive parcel.segment.feedback).next_eq
  have howed : (host.connection.feed parcel.segment).ackOwed.toNat ≤
      host.connection.ackOwed.toNat +
        (host.connection.asksAck parcel.segment.chunk).toNat := by
    change (host.connection.ackOwed || host.connection.asksAck parcel.segment.chunk).toNat ≤ _
    cases host.connection.ackOwed <;> cases host.connection.asksAck parcel.segment.chunk <;> decide
  unfold Host.receive at hafter ⊢
  rcases host.connection.receive_cases parcel.segment with hsame | hbroken | hanswered
  · rw [hsame]
    exact Nat.le_trans (Nat.le_of_eq (Nat.zero_add _)) (Nat.le_add_right _ _)
  · rw [hbroken]
    simp only [act, debt, hnext, List.map_nil]
    exact Nat.le_trans (Nat.le_of_eq (Nat.zero_add _)) (by omega)
  · rw [hanswered] at hafter ⊢
    have hsent := debt_send
      { host with connection := (host.connection.feed parcel.segment).noteClose } hafter
    have hfed : debt { host with connection := (host.connection.feed parcel.segment).noteClose } ≤
        host.debt + (host.connection.asksAck parcel.segment.chunk).toNat := by
      simp only [debt, Connection.outbound_noteClose, Connection.ackOwed_noteClose, hnext]
      omega
    exact Nat.le_trans hsent hfed

end Host

-- An empty segment that comes in its turn does not ask for an acknowledgment: it stands where
-- the receiver waits or behind that, but less than a lap.
theorem Connection.asksAck_of_empty {connection : Connection} {channel : Channel}
    (hinbound : channel.inbound = connection.inbound) (hsound : channel.Sound)
    (horderly : channel.inbound.Orderly) {flight : Flight} {fresh : List Flight} {reach : Nat}
    (hflows : channel.Flows [] (flight :: fresh) reach) (hspan : ¬ 0 < flight.chunk.span) :
    connection.asksAck flight.chunk = false := by
  have hreach := hflows.confirmed_le horderly
  have hnext := hflows.follows.le
  have hacked := hsound.acked
  have hinFlight := hsound.inFlight_le
  refine Bool.or_eq_false_iff.mpr ⟨decide_eq_false hspan, ?_⟩
  rw [beq_eq_false_iff_ne, ← hinbound, Inbound.feedback]
  intro hasks
  obtain ⟨known, hknown, hwire⟩ := Option.map_eq_some_iff.mp hasks
  obtain rfl := hsound.takes.initial_eq known hknown
  have hadvance : (SeqNo.ofIndex reach channel.outbound.initial).advance 1 =
      SeqNo.ofIndex (reach + 1) channel.outbound.initial := (SeqNo.ofIndex_add reach 1 _).symm
  rw [hflows.follows.2.1, hadvance] at hwire
  rw [channel.inbound.confirmed_of_some hknown] at hreach hacked
  have hsame := SeqNo.ofIndex_inj hwire (by omega) (by simp only [SeqNo.lap]; omega)
  omega

-- What can still be delivered because of what is on the way in one direction.
def Channel.Weighs (channel : Channel) (weight : Nat) : Prop :=
  ∃ stale fresh reach, channel.Flows stale fresh reach ∧ weight = 2 * stale.length + weights fresh

-- Two hosts whose wires are served in order, with an upper bound on how often that can be
-- done before the wires are empty.
structure Settling (budget : Nat) (host peer : Host) (ours theirs : List Parcel) : Prop where
  parting : Parting host peer ours theirs
  weighed : ∃ weight peerWeight, (host.channel peer ours theirs).Weighs weight ∧
    (peer.channel host theirs ours).Weighs peerWeight ∧
      weight + peerWeight + host.debt + peer.debt ≤ budget

namespace Settling

variable {host peer : Host} {ours theirs : List Parcel} {budget : Nat} {parcel : Parcel}

theorem swap (hsettling : Settling budget host peer ours theirs) :
    Settling budget peer host theirs ours where
  parting := hsettling.parting.swap
  weighed := by
    obtain ⟨weight, peerWeight, hours, htheirs, hsum⟩ := hsettling.weighed
    exact ⟨peerWeight, weight, htheirs, hours, by omega⟩

-- The parcel at the front of the wire weighs more than the acknowledgment it asks for.
theorem weighs_receive (hparting : Parting host peer ours (parcel :: theirs))
    (htimely : parcel.timely host = true) {weight : Nat}
    (hweighs : (peer.channel host (parcel :: theirs) ours).Weighs weight) :
    ∃ less, (peer.channel (host.receive parcel).1 theirs ours).Weighs less ∧
      less + (host.connection.asksAck parcel.segment.chunk).toNat < weight := by
  have hbit := Bool.toNat_le (host.connection.asksAck parcel.segment.chunk)
  have hsound := hparting.linked.back
  have hbehind := ((parcel.timely_iff host).mp htimely).1
  have hafter := host.connection.inbound_receive parcel.segment
  obtain ⟨stale, fresh, reach, hflows, rfl⟩ := hweighs
  have hwire : parcel.flight :: theirs.map Parcel.flight = stale ++ fresh := hflows.flights_eq
  cases stale with
  | cons first rest =>
      obtain ⟨rfl, hrest⟩ := List.cons.inj hwire
      change theirs.map Parcel.flight = rest ++ fresh at hrest
      have htaken := hflows.take_stale hsound hbehind hafter
      rw [← hrest] at htaken
      refine ⟨_, ⟨rest, fresh, reach, htaken, rfl⟩, ?_⟩
      rw [List.length_cons]
      omega
  | nil =>
      obtain rfl : _ = fresh := hwire
      refine ⟨_, ⟨[], _, _, hflows.take_fresh hsound hbehind hafter, rfl⟩, ?_⟩
      rw [weights_cons, Flight.weight, List.length_nil]
      split
      · omega
      · rename_i hspan
        have hasks : host.connection.asksAck parcel.segment.chunk = false :=
          Connection.asksAck_of_empty rfl hsound hparting.leaves.orderly hflows hspan
        rw [hasks, Bool.toNat_false]
        omega

theorem receive (hsettling : Settling budget host peer ours (parcel :: theirs))
    (htimely : parcel.timely host = true) :
    0 < budget ∧ Settling (budget - 1) (host.receive parcel).1 peer
      (ours ++ (host.receive parcel).2) theirs := by
  obtain ⟨hparting, weight, peerWeight, ⟨stale, fresh, reach, hflows, rfl⟩, htheirs, hsum⟩ :=
    hsettling
  have hafter := hparting.receive parcel List.mem_cons_self htimely
  obtain ⟨less, ⟨left, later, peerReach, hpeer, hless⟩, hlt⟩ :=
    weighs_receive hparting htimely htheirs
  have hsends := hafter.linked.out.sends
  have hdebt := host.debt_receive parcel hparting.linked.out.sends hsends
  obtain ⟨hinitial, hfollows⟩ := host.follows_receive parcel hparting.linked.out.sends hsends
    hafter.linked.out.inFlight_le
  obtain ⟨hflights, hafterFollows, hstale, hhas⟩ := hflows.append hinitial hfollows
  refine ⟨by omega, hafter.lose (List.subset_cons_self parcel theirs), ?_⟩
  refine ⟨_, less, ⟨stale, _, reach, ⟨?_, hafterFollows, hstale, hhas⟩, rfl⟩,
    ⟨left, later, peerReach, ⟨hpeer.flights_eq, hpeer.follows, hpeer.stale_le, hpeer.has_lt⟩,
      hless⟩, ?_⟩
  · exact List.map_append.trans hflights
  · rw [weights_append]
    omega

theorem send (hsettling : Settling budget host peer ours theirs) :
    Settling budget (host.act host.connection.send).1 peer
      (ours ++ (host.act host.connection.send).2) theirs := by
  obtain ⟨hparting, _, peerWeight, ⟨stale, fresh, reach, hours, rfl⟩,
    ⟨peerStale, peerFresh, peerReach, htheirs, hpeer⟩, hsum⟩ := hsettling
  have hafter := hparting.send
  have hsends := hafter.linked.out.sends
  have hdebt := host.debt_send hsends
  have hfollows : Follows host.connection.outbound.initial host.connection.outbound.next
      ((host.act host.connection.send).2.map Parcel.flight) host.connection.send.1.outbound.next :=
    Connection.follows_send hsends hafter.linked.out.inFlight_le
  obtain ⟨hflights, hafterFollows, hstale, hhas⟩ :=
    hours.append host.connection.initial_send hfollows
  refine ⟨hafter, _, peerWeight,
    ⟨stale, _, reach, ⟨List.map_append.trans hflights, hafterFollows, hstale, hhas⟩, rfl⟩,
    ⟨peerStale, peerFresh, peerReach,
      ⟨htheirs.flights_eq, htheirs.follows, htheirs.stale_le, ?_⟩, hpeer⟩, ?_⟩
  · simp only [Host.channel, Host.act, Connection.inbound_send]
    exact htheirs.has_lt
  · rw [weights_append]
    omega

-- Readers send nothing, and what they read has come in before.
theorem incoming (hsettling : Settling budget host peer ours theirs) (op : Pipe.Op)
    (hop : op.feeds = false) :
    Settling budget (host.perform (.incoming op hop)).1 peer ours theirs := by
  obtain ⟨hparting, weight, _, ⟨stale, fresh, reach, hours, hweight⟩,
    ⟨peerStale, peerFresh, peerReach, htheirs, rfl⟩, hsum⟩ := hsettling
  have hafter := hparting.perform (.incoming op hop)
  rw [show (host.perform (.incoming op hop)).2 = [] from rfl, List.append_nil] at hafter
  refine ⟨hafter, weight, _,
    ⟨stale, fresh, reach, ⟨hours.flights_eq, hours.follows, hours.stale_le, hours.has_lt⟩, hweight⟩,
    ⟨peerStale, peerFresh, peerReach,
      ⟨htheirs.flights_eq, htheirs.follows, htheirs.stale_le, ?_⟩, rfl⟩, hsum⟩
  intro index hhas
  exact htheirs.has_lt index ((host.connection.inbound.has_apply op hop index).mp hhas)

end Settling

namespace Exchange

variable {exchange next : Exchange Host Parcel}

-- Deliveries to one side or the other, always of the oldest parcel.
def served (sides : List Side) : List Move :=
  sides.map fun side => .deliver side 0 false

end Exchange

end UserTcp
