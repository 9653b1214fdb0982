import UserTcp.Proofs.Channel.Order

namespace UserTcp.Channel

-- One number went out to a receiver without room. It is the oldest that the sender keeps,
-- and all that the receiver lacks of what came to it. When it is not on the way again, it
-- has been sent again fewer times than there is patience for.
structure Probing (patience : Nat) (channel : Channel) (stale : List Flight) (reach : Nat)
    (probe : Flight) : Prop where
  head_eq : channel.outbound.flights.head? = some probe
  span_eq : probe.chunk.span = 1
  known : channel.inbound.initial ≠ none
  confirmed_eq : channel.inbound.confirmed = probe.start
  lt_reach : probe.start < reach
  has : ∀ index < reach, index ≠ probe.start → channel.inbound.Has index
  stale_eq : stale = [] ∨ stale = [probe]
  patient : stale = [] → channel.outbound.retransmissions < patience

-- The sender goes on, and keeps the probe. What is on the way has no part in that.
theorem Probing.proceed {patience : Nat} {channel after : Channel} {stale left : List Flight}
    {reach : Nat} {probe : Flight} (hprobing : channel.Probing patience stale reach probe)
    (hinbound : after.inbound = channel.inbound)
    (hhead : after.outbound.flights.head? = some probe) (hleft : left = [] ∨ left = [probe])
    (hpatient : left = [] → after.outbound.retransmissions < patience) :
    after.Probing patience left reach probe where
  head_eq := hhead
  span_eq := hprobing.span_eq
  known := hinbound ▸ hprobing.known
  confirmed_eq := hinbound ▸ hprobing.confirmed_eq
  lt_reach := hprobing.lt_reach
  has := hinbound ▸ hprobing.has
  stale_eq := hleft
  patient := hpatient

-- Nothing gets lost. What was sent came in up to `reach`, but for a probe perhaps, and the
-- rest finds room when it comes, again but for a probe. What the receiver says is heard in
-- the order in which it was said.
structure Calm (patience : Nat) (channel : Channel) (stale fresh : List Flight) (reach : Nat) :
    Prop extends Flows channel stale fresh reach where
  balanced : channel.outbound.Balanced
  roomy : 0 < channel.inbound.stream.capacity
  ordered : channel.reports.Pairwise fun first second =>
    first.acked.getD 0 ≤ second.acked.getD 0
  recent : ∀ report ∈ channel.reports, channel.outbound.base ≤ report.acked.getD 0
  offers : ∀ report ∈ channel.reports,
    report.acked.getD 0 + report.feedback.window.toNat ≤ channel.inbound.edge
  opens : ∀ report ∈ channel.reports, report.acked = none → report.feedback.window ≠ 0
  offered : channel.outbound.base + channel.outbound.window.toNat ≤ channel.inbound.edge
  fits : ∀ flight ∈ fresh, 0 < flight.chunk.span → flight.stop ≤ channel.inbound.edge ∨
    flight.chunk.span = 1 ∧ channel.outbound.flights.head? = some flight
  arrived : stale = [] ∧ (∀ index < reach, channel.inbound.Has index) ∨
    ∃ probe, channel.Probing patience stale reach probe

-- A sender whose receiver has everything has nothing to wait for, or it will hear so.
def Heard (channel : Channel) : Prop :=
  channel.inbound.confirmed = channel.outbound.next → channel.outbound.flights = [] ∨
    ∃ report ∈ channel.reports, report.acked = some channel.outbound.next

theorem Sound.open_of_confirmed_lt {channel : Channel} (hsound : channel.Sound)
    (horderly : channel.inbound.Orderly)
    (hlt : channel.inbound.confirmed < channel.outbound.next) :
    channel.inbound.stream.closed = false := by
  refine eq_false_of_ne_true fun hclosed => ?_
  obtain ⟨known, hknown⟩ := Option.ne_none_iff_exists'.mp (horderly.begun (horderly.ended hclosed))
  have hreceived := hsound.received_of_closed hclosed
  rw [channel.inbound.confirmed_of_some hknown] at hlt
  omega

namespace Calm

variable {patience : Nat} {channel : Channel} {stale fresh : List Flight} {reach : Nat}

-- What changes at the receiver when the front of the wire comes to it.
theorem take (hcalm : channel.Calm patience stale fresh reach) {after : Inbound}
    {flights left later : List Flight} {further : Nat}
    (hflows : { channel with inbound := after, flights := flights }.Flows left later further)
    (hcapacity : after.stream.capacity = channel.inbound.stream.capacity)
    (hedge : channel.inbound.edge ≤ after.edge) (hlater : later ⊆ fresh)
    (harrived : left = [] ∧ (∀ index < further, after.Has index) ∨
      ∃ probe, { channel with inbound := after, flights := flights }.Probing patience left further
        probe) :
    { channel with inbound := after, flights := flights }.Calm patience left later further where
  toFlows := hflows
  balanced := hcalm.balanced
  roomy := Nat.lt_of_lt_of_eq hcalm.roomy hcapacity.symm
  ordered := hcalm.ordered
  recent := hcalm.recent
  offers := fun report hmem => Nat.le_trans (hcalm.offers report hmem) hedge
  opens := hcalm.opens
  offered := Nat.le_trans hcalm.offered hedge
  fits := fun flight hmem hspan =>
    (hcalm.fits flight (hlater hmem) hspan).imp_left fun hfits => Nat.le_trans hfits hedge
  arrived := harrived

theorem confirmed_le_start (hcalm : channel.Calm patience stale fresh reach)
    (horderly : channel.inbound.Orderly) {flight : Flight} {rest : List Flight}
    (hwire : channel.flights = flight :: rest) : channel.inbound.confirmed ≤ flight.start := by
  have hsplit := hcalm.flights_eq
  rw [hwire] at hsplit
  rcases hcalm.arrived with ⟨rfl, -⟩ | ⟨probe, hprobing⟩
  · obtain rfl : flight :: rest = fresh := hsplit
    rw [hcalm.follows.1]
    exact hcalm.confirmed_le horderly
  · rcases hprobing.stale_eq with rfl | rfl
    · obtain rfl : flight :: rest = fresh := hsplit
      rw [hcalm.follows.1]
      exact hcalm.confirmed_le horderly
    · obtain ⟨rfl, -⟩ := List.cons.inj hsplit
      exact Nat.le_of_eq hprobing.confirmed_eq

-- Nothing comes too late.
theorem behind (hcalm : channel.Calm patience stale fresh reach)
    (horderly : channel.inbound.Orderly) {flight : Flight} {rest : List Flight}
    (hwire : channel.flights = flight :: rest) :
    channel.inbound.stream.pushed + 1 < flight.start + SeqNo.lap / 2 := by
  have hstart := hcalm.confirmed_le_start horderly hwire
  have hpushed := horderly.pushed_le_confirmed
  simp only [SeqNo.lap]
  omega

theorem recent_report (hcalm : channel.Calm patience stale fresh reach) (hsound : channel.Sound)
    {report : Report} (hmem : report ∈ channel.reports) {ack : Nat} (hack : report.acked = some ack) :
    channel.outbound.next < ack + SeqNo.lap / 2 := by
  have hbase := hcalm.recent report hmem
  have hinFlight := hsound.inFlight_le
  rw [hack, Option.getD_some, Outbound.base] at hbase
  simp only [SeqNo.lap]
  omega

-- A receiver without room has heard of the stream.
theorem known_of_full (hcalm : channel.Calm patience stale fresh reach) (hsound : channel.Sound)
    (horderly : channel.inbound.Orderly) (hfull : channel.inbound.stream.free = 0) :
    channel.inbound.initial ≠ none := by
  intro hnone
  have hfree := hsound.takes.free_of_unlearned horderly hnone
  have hroomy := hcalm.roomy
  omega

theorem confirmed_add_free_le (channel : Channel) :
    channel.inbound.confirmed + channel.inbound.stream.free ≤ channel.inbound.edge :=
  Nat.add_le_add_right channel.inbound.confirmed_le_received _

theorem start_le_next (hcalm : channel.Calm patience stale fresh reach) {flight : Flight}
    {rest : List Flight} (hwire : channel.flights = flight :: rest) :
    flight.start ≤ channel.outbound.next := by
  have hsplit := hcalm.flights_eq
  rw [hwire] at hsplit
  have hfresh : flight ∈ fresh → flight.start ≤ channel.outbound.next := fun hmem => by
    have hstop := (hcalm.follows.mem flight hmem).2
    rw [flight.stop_eq] at hstop
    omega
  rcases hcalm.arrived with ⟨rfl, -⟩ | ⟨probe, hprobing⟩
  · obtain rfl : flight :: rest = fresh := hsplit
    exact hfresh List.mem_cons_self
  · rcases hprobing.stale_eq with rfl | rfl
    · obtain rfl : flight :: rest = fresh := hsplit
      exact hfresh List.mem_cons_self
    · obtain ⟨rfl, -⟩ := List.cons.inj hsplit
      exact Nat.le_trans (Nat.le_of_lt hprobing.lt_reach) hcalm.follows.le

section Deliver

variable {flight : Flight}

theorem edge_le_receive (hsound : channel.Sound) (chunk : Chunk) :
    channel.inbound.edge ≤ (channel.inbound.receive chunk).edge :=
  (Inbound.Tidy.stands_receive ⟨_, hsound.takes.assembles.intact⟩ chunk).edge_le

-- What was in stays in.
theorem has_mono (hcalm : channel.Calm patience stale fresh reach) (hsound : channel.Sound)
    (horderly : channel.inbound.Orderly) {rest : List Flight}
    (hwire : channel.flights = flight :: rest) (hindex : channel.outbound.next < SeqNo.indexLimit)
    {index : Nat} (hhas : channel.inbound.Has index) :
    (channel.inbound.receive flight.chunk).Has index := by
  have hcarried := hsound.carried flight (hwire ▸ List.mem_cons_self)
  exact hsound.takes.has_receive_mono flight.chunk flight.start (fun hspan => (hcarried hspan).2)
    hsound.length_sent_lt (hcalm.behind horderly hwire)
    (Nat.lt_of_le_of_lt (hcalm.start_le_next hwire) hindex) hhas

-- What there is room for is taken.
theorem has_of_room (hcalm : channel.Calm patience stale fresh reach) (hsound : channel.Sound)
    (horderly : channel.inbound.Orderly) {rest : List Flight}
    (hwire : channel.flights = flight :: rest) (hindex : channel.outbound.next < SeqNo.indexLimit)
    (hrst : flight.chunk.rst = false) (hspan : 0 < flight.chunk.span)
    (hlearns : channel.inbound.initial ≠ none ∨ flight.start = 0)
    (hlacks : channel.inbound.confirmed < channel.outbound.next)
    (hfree : 0 < channel.inbound.stream.free) (hstop : flight.stop ≤ channel.inbound.edge)
    {index : Nat} (hstart : flight.start ≤ index) (hlt : index < flight.stop) :
    (channel.inbound.receive flight.chunk).Has index := by
  have hplaced := (hsound.carried flight (hwire ▸ List.mem_cons_self) hspan).2
  exact hsound.takes.has_receive_of_room flight.chunk flight.start hplaced hrst
    (hlearns.imp_right hplaced.syn_iff.mpr) (hsound.open_of_confirmed_lt horderly hlacks) hfree
    hstop (hcalm.behind horderly hwire) hsound.length_sent_lt
    (Nat.lt_of_le_of_lt (hcalm.start_le_next hwire) hindex) hstart hlt

-- A probe comes once more. Either there is room for it now, and nothing is missing any more,
-- or it goes on waiting.
theorem deliver_stale (hcalm : channel.Calm patience (flight :: stale) fresh reach)
    (hsound : channel.Sound) (horderly : channel.inbound.Orderly)
    (hrst : flight.chunk.rst = false) (hindex : channel.outbound.next < SeqNo.indexLimit)
    (hguard : channel.inbound.stream.free = 0 → channel.outbound.retransmissions < patience) :
    { channel with
      inbound := channel.inbound.receive flight.chunk
      flights := fresh }.Calm patience [] fresh reach := by
  have hprobing : channel.Probing patience [flight] reach flight ∧ stale = [] := by
    rcases hcalm.arrived with ⟨hnone, -⟩ | ⟨probe, hprobing⟩
    · cases hnone
    · rcases hprobing.stale_eq with hnone | hone
      · cases hnone
      · obtain ⟨rfl, rfl⟩ := List.cons.inj hone
        exact ⟨hprobing, rfl⟩
  obtain ⟨hprobing, rfl⟩ := hprobing
  have hwire : channel.flights = flight :: fresh := hcalm.flights_eq
  have hflows := hcalm.toFlows.take_stale hsound (hcalm.behind horderly hwire) (.inr rfl)
  refine hcalm.take hflows (channel.inbound.capacity_receive flight.chunk)
    (edge_le_receive hsound flight.chunk) (List.Subset.refl fresh) ?_
  have hspan : 0 < flight.chunk.span := by
    rw [hprobing.span_eq]
    exact Nat.one_pos
  cases Nat.eq_zero_or_pos channel.inbound.stream.free with
  | inl hfull =>
      rw [channel.inbound.receive_of_full flight.chunk hrst hprobing.known hfull]
      exact .inr ⟨flight, hprobing.head_eq, hprobing.span_eq, hprobing.known,
        hprobing.confirmed_eq, hprobing.lt_reach, hprobing.has, .inl rfl, fun _ => hguard hfull⟩
  | inr hfree =>
      refine .inl ⟨rfl, fun index hlt => ?_⟩
      have hstop : flight.stop ≤ channel.inbound.edge := by
        have hedge := confirmed_add_free_le channel
        rw [flight.stop_eq, hprobing.span_eq, ← hprobing.confirmed_eq]
        omega
      by_cases hprobe : index = flight.start
      · have hlacks : channel.inbound.confirmed < channel.outbound.next := by
          rw [hprobing.confirmed_eq]
          exact Nat.lt_of_lt_of_le hprobing.lt_reach hcalm.follows.le
        exact hcalm.has_of_room hsound horderly hwire hindex hrst hspan (.inl hprobing.known) hlacks
          hfree hstop (Nat.le_of_eq hprobe.symm) (by rw [flight.stop_eq]; omega)
      · exact hcalm.has_mono hsound horderly hwire hindex (hprobing.has index hlt hprobe)

-- While a probe is missing the receiver keeps what comes behind it.
theorem probing_receive (hcalm : channel.Calm patience [] (flight :: fresh) reach)
    (hsound : channel.Sound) (horderly : channel.inbound.Orderly)
    (hindex : channel.outbound.next < SeqNo.indexLimit) {probe : Flight}
    (hprobing : channel.Probing patience [] reach probe)
    (hnew : ∀ index, reach ≤ index → index < flight.stop →
      (channel.inbound.receive flight.chunk).Has index) :
    { channel with
      inbound := channel.inbound.receive flight.chunk
      flights := fresh }.Probing patience [] flight.stop probe := by
  have hwire : channel.flights = flight :: fresh := hcalm.flights_eq
  have hmem : flight ∈ channel.flights := hwire ▸ List.mem_cons_self
  have hbehind := hcalm.behind horderly hwire
  have hstart := hcalm.follows.1
  have hlt := hprobing.lt_reach
  have hhas : ∀ index < flight.stop, index ≠ probe.start →
      (channel.inbound.receive flight.chunk).Has index := by
    intro index hstop hprobe
    by_cases hold : index < reach
    · exact hcalm.has_mono hsound horderly hwire hindex (hprobing.has index hold hprobe)
    · exact hnew index (Nat.not_lt.mp hold) hstop
  have hmissing : ¬ (channel.inbound.receive flight.chunk).Has probe.start := by
    intro hprobe
    rcases Flows.has_receive_cases hsound hmem hbehind (.inr rfl) hprobe with hold | ⟨-, hle, -⟩
    · rw [← hprobing.confirmed_eq] at hold
      exact hsound.takes.not_has_confirmed horderly hold
    · omega
  have hreach : reach ≤ flight.stop := by
    rw [flight.stop_eq]
    omega
  refine ⟨hprobing.head_eq, hprobing.span_eq, ?_, ?_, Nat.lt_of_lt_of_le hlt hreach, hhas, .inl rfl,
    hprobing.patient⟩
  · obtain ⟨known, hknown⟩ := Option.ne_none_iff_exists'.mp hprobing.known
    rw [channel.inbound.initial_receive_of_some flight.chunk hknown]
    exact Option.some_ne_none known
  · have hcarried := hsound.carried flight hmem
    refine (hsound.takes.receive flight.chunk flight.start (fun hspan => (hcarried hspan).2)
      hsound.length_sent_lt hbehind).confirmed_eq_of_missing (horderly.receive flight.chunk)
      (fun index hbefore => hhas index ?_ ?_) hmissing
    · omega
    · omega

theorem lacks_of_fresh (hcalm : channel.Calm patience [] (flight :: fresh) reach)
    (hsound : channel.Sound) (horderly : channel.inbound.Orderly) (hspan : 0 < flight.chunk.span) :
    channel.inbound.confirmed < channel.outbound.next := by
  have hmem : flight ∈ channel.flights := hcalm.flights_eq ▸ List.mem_cons_self
  have hnext := (hsound.carried flight hmem hspan).1
  have hstart := hcalm.follows.1
  have hle := hcalm.confirmed_le horderly
  rw [flight.stop_eq] at hnext
  omega

-- When all has come in and there is room, the next flight comes in as well.
theorem has_of_next (hcalm : channel.Calm patience [] (flight :: fresh) reach)
    (hsound : channel.Sound) (horderly : channel.inbound.Orderly)
    (hrst : flight.chunk.rst = false) (hindex : channel.outbound.next < SeqNo.indexLimit)
    (hall : ∀ index < reach, channel.inbound.Has index) (hspan : 0 < flight.chunk.span)
    (hfree : 0 < channel.inbound.stream.free) {index : Nat} (hlt : index < flight.stop) :
    (channel.inbound.receive flight.chunk).Has index := by
  have hwire : channel.flights = flight :: fresh := hcalm.flights_eq
  have hstart := hcalm.follows.1
  by_cases hold : index < reach
  · exact hcalm.has_mono hsound horderly hwire hindex (hall index hold)
  · have hconfirmed := hsound.takes.le_confirmed horderly hall
    have hedge := confirmed_add_free_le channel
    have hroom : flight.stop ≤ channel.inbound.edge := by
      rcases hcalm.fits flight List.mem_cons_self hspan with hroom | ⟨hone, -⟩
      · exact hroom
      · rw [flight.stop_eq]
        omega
    have hlearns : channel.inbound.initial ≠ none ∨ flight.start = 0 := by
      rcases Nat.eq_zero_or_pos reach with hzero | hpos
      · exact .inr (hstart.trans hzero)
      · exact .inl (hall 0 hpos)
    exact hcalm.has_of_room hsound horderly hwire hindex hrst hspan hlearns
      (hcalm.lacks_of_fresh hsound horderly hspan) hfree hroom (by omega) hlt

-- When all has come in and there is no room, only a probe can come. From then on it is missing.
theorem probing_of_full (hcalm : channel.Calm patience [] (flight :: fresh) reach)
    (hsound : channel.Sound) (horderly : channel.inbound.Orderly)
    (hrst : flight.chunk.rst = false) (hall : ∀ index < reach, channel.inbound.Has index)
    (hspan : 0 < flight.chunk.span) (hfull : channel.inbound.stream.free = 0)
    (hpatient : channel.outbound.retransmissions < patience) :
    { channel with
      inbound := channel.inbound.receive flight.chunk
      flights := fresh }.Probing patience [] flight.stop flight := by
  have hstart := hcalm.follows.1
  have hle := hcalm.confirmed_le horderly
  have hconfirmed := hsound.takes.le_confirmed horderly hall
  have hknown := hcalm.known_of_full hsound horderly hfull
  obtain ⟨initial, hinitial⟩ := Option.ne_none_iff_exists'.mp hknown
  have hreceived := channel.inbound.confirmed_of_some hinitial
  have hwaits : channel.inbound.confirmed = flight.start := by omega
  obtain ⟨hone, hhead⟩ : flight.chunk.span = 1 ∧
      channel.outbound.flights.head? = some flight := by
    refine (hcalm.fits flight List.mem_cons_self hspan).resolve_left fun hroom => ?_
    rw [flight.stop_eq, Inbound.edge] at hroom
    omega
  rw [channel.inbound.receive_of_full flight.chunk hrst hknown hfull]
  refine ⟨hhead, hone, hknown, hwaits, ?_, fun index hlt hother => ?_, .inl rfl,
    fun _ => hpatient⟩
  · rw [flight.stop_eq]
    omega
  · rw [flight.stop_eq, hone] at hlt
    exact hall index (by omega)

-- Behind a probe nothing is sent but what there was room for.
theorem has_behind_probe (hcalm : channel.Calm patience [] (flight :: fresh) reach)
    (hsound : channel.Sound) (horderly : channel.inbound.Orderly)
    (hrst : flight.chunk.rst = false) (hindex : channel.outbound.next < SeqNo.indexLimit)
    {probe : Flight} (hprobing : channel.Probing patience [] reach probe)
    (hspan : 0 < flight.chunk.span) {index : Nat} (hge : reach ≤ index)
    (hlt : index < flight.stop) : (channel.inbound.receive flight.chunk).Has index := by
  have hstart := hcalm.follows.1
  have hprobe := hprobing.lt_reach
  have hroom : flight.stop ≤ channel.inbound.edge := by
    refine (hcalm.fits flight List.mem_cons_self hspan).resolve_right fun hhead => ?_
    rw [hprobing.head_eq, Option.some.injEq] at hhead
    rw [hhead.2] at hprobe
    omega
  have hfree : 0 < channel.inbound.stream.free := by
    obtain ⟨initial, hinitial⟩ := Option.ne_none_iff_exists'.mp hprobing.known
    have hreceived := channel.inbound.confirmed_of_some hinitial
    have hconfirmed := hprobing.confirmed_eq
    rw [flight.stop_eq, Inbound.edge] at hroom
    omega
  exact hcalm.has_of_room hsound horderly hcalm.flights_eq hindex hrst hspan (.inl hprobing.known)
    (hcalm.lacks_of_fresh hsound horderly hspan) hfree hroom (by omega) hlt

-- A fresh flight comes in its turn. It finds room, or it is a probe.
theorem deliver_fresh (hcalm : channel.Calm patience [] (flight :: fresh) reach)
    (hsound : channel.Sound) (horderly : channel.inbound.Orderly)
    (hrst : flight.chunk.rst = false) (hindex : channel.outbound.next < SeqNo.indexLimit)
    (hguard : 0 < flight.chunk.span → channel.inbound.stream.free = 0 →
      channel.outbound.retransmissions < patience) :
    { channel with
      inbound := channel.inbound.receive flight.chunk
      flights := fresh }.Calm patience [] fresh flight.stop := by
  have hwire : channel.flights = flight :: fresh := hcalm.flights_eq
  have hflows := hcalm.toFlows.take_fresh hsound (hcalm.behind horderly hwire) (.inr rfl)
  refine hcalm.take hflows (channel.inbound.capacity_receive flight.chunk)
    (edge_le_receive hsound flight.chunk) (List.subset_cons_self flight fresh) ?_
  -- an empty flight brings nothing
  have hempty : ¬ 0 < flight.chunk.span → flight.stop ≤ reach := by
    have hstart := hcalm.follows.1
    rw [flight.stop_eq]
    omega
  rcases hcalm.arrived with ⟨-, hall⟩ | ⟨probe, hprobing⟩
  · by_cases hspan : 0 < flight.chunk.span
    · cases Nat.eq_zero_or_pos channel.inbound.stream.free with
      | inl hfull =>
          exact .inr ⟨flight, hcalm.probing_of_full hsound horderly hrst hall hspan hfull
            (hguard hspan hfull)⟩
      | inr hfree =>
          exact .inl ⟨rfl, fun _ hlt =>
            hcalm.has_of_next hsound horderly hrst hindex hall hspan hfree hlt⟩
    · exact .inl ⟨rfl, fun index hlt => hcalm.has_mono hsound horderly hwire hindex
        (hall index (Nat.lt_of_lt_of_le hlt (hempty hspan)))⟩
  · refine .inr ⟨probe, hcalm.probing_receive hsound horderly hindex hprobing
      fun index hge hlt => ?_⟩
    have hspan : 0 < flight.chunk.span := Classical.not_not.mp fun hnone =>
      Nat.not_le.mpr hlt (Nat.le_trans (hempty hnone) hge)
    exact hcalm.has_behind_probe hsound horderly hrst hindex hprobing hspan hge hlt

end Deliver

end Calm

end UserTcp.Channel
