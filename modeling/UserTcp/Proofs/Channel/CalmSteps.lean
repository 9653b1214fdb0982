import UserTcp.Proofs.Channel.Calm
import UserTcp.Proofs.Outbound.Persists

namespace UserTcp

theorem Outbound.base_acknowledge_le (outbound : Outbound)
    (htiles : Tiles (outbound.next - outbound.inFlight) outbound.flights outbound.next)
    (hle : outbound.inFlight ≤ outbound.next) (ack : Nat) :
    (outbound.acknowledge ack).base ≤ max outbound.base ack := by
  have hsettles := settles_acknowledge outbound ack htiles hle
  have hnext := hsettles.next_eq
  have hacked := hsettles.acked
  unfold base
  omega

namespace Channel

theorem Sound.confirmed_of_closed {channel : Channel} (hsound : channel.Sound)
    (horderly : channel.inbound.Orderly) (hclosed : channel.inbound.stream.closed = true) :
    channel.inbound.confirmed = channel.outbound.next := by
  refine Nat.le_antisymm hsound.confirmed_le_next (Nat.le_of_not_lt fun hlt => ?_)
  rw [hsound.open_of_confirmed_lt horderly hlt] at hclosed
  cases hclosed

-- With nothing on the way a sender whose receiver has everything waits for nothing.
theorem Sound.flights_of_silent {channel : Channel} (hsound : channel.Sound)
    (horderly : channel.inbound.Orderly) (hheard : channel.Heard) (hreports : channel.reports = [])
    (hall : ∀ index < channel.outbound.next, channel.inbound.Has index) :
    channel.outbound.flights = [] := by
  have hconfirmed := hsound.takes.le_confirmed horderly hall
  rcases hheard (Nat.le_antisymm hsound.confirmed_le_next hconfirmed) with hnone | ⟨report, hmem, -⟩
  · exact hnone
  · rw [hreports] at hmem
    exact absurd hmem List.not_mem_nil

namespace Calm

variable {patience : Nat} {channel : Channel} {stale fresh : List Flight} {reach : Nat}

-- A receiver that has the whole stream may stop to listen. Nothing but empty chunks comes.
theorem skip (hcalm : channel.Calm patience stale fresh reach) (hsound : channel.Sound)
    (horderly : channel.inbound.Orderly) {flight : Flight} {rest : List Flight}
    (hwire : channel.flights = flight :: rest)
    (hclosed : channel.inbound.stream.closed = true) :
    { channel with flights := rest }.Calm patience [] rest flight.stop ∧
      flight.chunk.span = 0 := by
  have hall := hsound.confirmed_of_closed horderly hclosed
  have hnext := hcalm.follows.le
  have hsplit := hcalm.flights_eq
  rcases hcalm.arrived with ⟨rfl, hhas⟩ | ⟨probe, hprobing⟩
  · obtain rfl : flight :: rest = fresh := hwire.symm.trans hsplit
    have hstart := hcalm.follows.1
    have hreach := hcalm.confirmed_le horderly
    have hstop := (hcalm.follows.mem flight List.mem_cons_self).2
    have hspan : flight.chunk.span = 0 := by
      rw [flight.stop_eq] at hstop
      omega
    refine ⟨?_, hspan⟩
    have hflows := hcalm.toFlows.take_fresh hsound (hcalm.behind horderly hwire) (.inl rfl)
    refine hcalm.take hflows rfl (Nat.le_refl _) (List.subset_cons_self flight rest)
      (.inl ⟨rfl, fun index hlt => hhas index ?_⟩)
    rw [flight.stop_eq] at hlt
    omega
  · have hprobe := hprobing.lt_reach
    have hconfirmed := hprobing.confirmed_eq
    omega

-- The front of the wire comes to the receiver.
theorem deliver (hcalm : channel.Calm patience stale fresh reach) (hsound : channel.Sound)
    (horderly : channel.inbound.Orderly) {flight : Flight} {rest : List Flight}
    (hwire : channel.flights = flight :: rest) (hrst : flight.chunk.rst = false)
    (hindex : channel.outbound.next < SeqNo.indexLimit)
    (hguard : 0 < flight.chunk.span → channel.inbound.stream.free = 0 →
      channel.outbound.retransmissions < patience) :
    ∃ stale fresh reach, { channel with
      inbound := channel.inbound.receive flight.chunk
      flights := rest }.Calm patience stale fresh reach := by
  have hsplit := hwire.symm.trans hcalm.flights_eq
  rcases hcalm.arrived with ⟨rfl, -⟩ | ⟨probe, hprobing⟩
  · obtain rfl : flight :: rest = fresh := hsplit
    exact ⟨_, _, _, hcalm.deliver_fresh hsound horderly hrst hindex hguard⟩
  · rcases hprobing.stale_eq with rfl | rfl
    · obtain rfl : flight :: rest = fresh := hsplit
      exact ⟨_, _, _, hcalm.deliver_fresh hsound horderly hrst hindex hguard⟩
    · obtain ⟨rfl, hrest⟩ := List.cons.inj hsplit
      obtain rfl : rest = fresh := hrest
      have hspan : 0 < flight.chunk.span := by
        rw [hprobing.span_eq]
        exact Nat.one_pos
      exact ⟨_, _, _, hcalm.deliver_stale hsound horderly hrst hindex (hguard hspan)⟩

-- An empty chunk acknowledges nothing more.
theorem confirmed_receive_of_empty (hcalm : channel.Calm patience stale fresh reach)
    (hsound : channel.Sound) (horderly : channel.inbound.Orderly) {flight : Flight}
    {rest : List Flight} (hwire : channel.flights = flight :: rest)
    (hindex : channel.outbound.next < SeqNo.indexLimit) (hempty : ¬ 0 < flight.chunk.span) :
    (channel.inbound.receive flight.chunk).confirmed = channel.inbound.confirmed := by
  have hmem : flight ∈ channel.flights := hwire ▸ List.mem_cons_self
  have hbehind := hcalm.behind horderly hwire
  have hcarried := hsound.carried flight hmem
  refine (hsound.takes.receive flight.chunk flight.start (fun hspan => (hcarried hspan).2)
    hsound.length_sent_lt hbehind).confirmed_eq_of_missing (horderly.receive flight.chunk)
    (fun index hlt => ?_) fun hhas => ?_
  · exact hcalm.has_mono hsound horderly hwire hindex (horderly.has_of_lt_confirmed hlt)
  · rcases Flows.has_receive_cases hsound hmem hbehind (.inr rfl) hhas with hold | ⟨hspan, -⟩
    · exact hsound.takes.not_has_confirmed horderly hold
    · exact hempty hspan

section Reports

variable {report : Report}

theorem receive_cases (hcalm : channel.Calm patience stale fresh reach) (hsound : channel.Sound)
    (hmem : report ∈ channel.reports) (hrst : report.feedback.rst = false)
    (hindex : channel.outbound.next < SeqNo.indexLimit) :
    report.acked = none ∧ channel.outbound.receive report.feedback =
        { channel.outbound with window := report.feedback.window } ∨
      ∃ ack, report.acked = some ack ∧ ack ≤ channel.inbound.confirmed ∧
        channel.outbound.receive report.feedback =
          { channel.outbound with window := report.feedback.window }.acknowledge ack := by
  obtain ⟨hackno, hconfirmed⟩ := hsound.truthful report hmem
  cases hacked : report.acked with
  | none =>
      rw [hacked, Option.map_none] at hackno
      exact .inl ⟨rfl, channel.outbound.receive_of_silent report.feedback hrst hackno
        (hcalm.opens report hmem hacked)⟩
  | some ack =>
      rw [hacked, Option.map_some] at hackno
      have hle := hconfirmed ack hacked
      exact .inr ⟨ack, rfl, hle, channel.outbound.receive_of_ackno report.feedback ack hrst hackno
        (Nat.le_trans hle hsound.confirmed_le_next) (hcalm.recent_report hsound hmem hacked) hindex⟩

-- What the receiver lacks is kept for another transmission.
theorem keeps_oldest (hcalm : channel.Calm patience stale fresh reach) (hsound : channel.Sound)
    (hmem : report ∈ channel.reports) (hrst : report.feedback.rst = false)
    (hindex : channel.outbound.next < SeqNo.indexLimit) {oldest : Flight}
    (hhead : channel.outbound.flights.head? = some oldest)
    (hlacks : channel.inbound.confirmed ≤ oldest.start) :
    (channel.outbound.receive report.feedback).flights.head? = some oldest ∧
      (channel.outbound.receive report.feedback).retransmissions =
        channel.outbound.retransmissions := by
  have hoccupies : 0 < oldest.chunk.span :=
    (hcalm.balanced.tiles.mem oldest (List.mem_of_head? hhead)).2.1
  rcases hcalm.receive_cases hsound hmem hrst hindex with ⟨-, hsilent⟩ | ⟨ack, -, hack, hreceive⟩
  · rw [hsilent]
    exact ⟨hhead, rfl⟩
  · have hlt : ack < oldest.stop := by
      rw [oldest.stop_eq]
      omega
    have hsame := Outbound.acknowledge_of_lt
      { channel.outbound with window := report.feedback.window } hhead hlt
    rw [hreceive, hsame]
    exact ⟨hhead, rfl⟩

theorem acknowledge (hcalm : channel.Calm patience stale fresh reach) (hsound : channel.Sound)
    (horderly : channel.inbound.Orderly) {rest : List Report}
    (hwire : channel.reports = report :: rest) (hrst : report.feedback.rst = false)
    (hindex : channel.outbound.next < SeqNo.indexLimit) :
    { channel with
      outbound := channel.outbound.receive report.feedback
      reports := rest }.Calm patience stale fresh reach := by
  have hmem : report ∈ channel.reports := hwire ▸ List.mem_cons_self
  have hrest : ∀ other ∈ rest, other ∈ channel.reports := fun other hother =>
    hwire ▸ List.mem_cons_of_mem report hother
  have hsettles := hsound.sends.settles_receive report.feedback
  have hordered := hcalm.ordered
  rw [hwire, List.pairwise_cons] at hordered
  have hrecent := hcalm.recent report hmem
  have hoffers := hcalm.offers report hmem
  have hbase : (channel.outbound.receive report.feedback).base ≤ report.acked.getD 0 := by
    rcases hcalm.receive_cases hsound hmem hrst hindex with ⟨-, hsilent⟩ | ⟨ack, hack, -, hreceive⟩
    · rw [hsilent]
      exact hrecent
    · rw [hreceive]
      have hle := Outbound.base_acknowledge_le
        { channel.outbound with window := report.feedback.window } hcalm.balanced.tiles
        hcalm.balanced.inFlight_le ack
      refine Nat.le_trans hle (Nat.max_le.mpr ⟨hrecent, ?_⟩)
      rw [hack, Option.getD_some]
  constructor
  · refine ⟨hcalm.flights_eq, ?_, hcalm.stale_le, hcalm.has_lt⟩
    rw [hsettles.initial_eq, hsettles.next_eq]
    exact hcalm.follows
  · exact hcalm.balanced.receive report.feedback
  · exact hcalm.roomy
  · exact hordered.2
  · exact fun other hother => Nat.le_trans hbase (hordered.1 other hother)
  · exact fun other hother => hcalm.offers other (hrest other hother)
  · exact fun other hother => hcalm.opens other (hrest other hother)
  · rw [Outbound.window_receive]
    exact Nat.le_trans (Nat.add_le_add_right hbase _) hoffers
  · intro flight hflight hspan
    refine (hcalm.fits flight hflight hspan).imp_right fun hprobe => ⟨hprobe.1, ?_⟩
    have hlacks := Nat.le_trans (hcalm.confirmed_le horderly) (hcalm.follows.mem flight hflight).1
    exact (hcalm.keeps_oldest hsound hmem hrst hindex hprobe.2 hlacks).1
  · refine hcalm.arrived.imp_right fun hsome => ?_
    obtain ⟨probe, hprobing⟩ := hsome
    obtain ⟨hhead, hcount⟩ := hcalm.keeps_oldest hsound hmem hrst hindex hprobing.head_eq
      (Nat.le_of_eq hprobing.confirmed_eq)
    exact ⟨probe, hprobing.proceed rfl hhead hprobing.stale_eq fun hnone =>
      Nat.lt_of_le_of_lt (Nat.le_of_eq hcount) (hprobing.patient hnone)⟩

theorem heard_acknowledge (hcalm : channel.Calm patience stale fresh reach)
    (hsound : channel.Sound) (hheard : channel.Heard) {rest : List Report}
    (hwire : channel.reports = report :: rest) (hrst : report.feedback.rst = false)
    (hindex : channel.outbound.next < SeqNo.indexLimit) :
    Heard { channel with
      outbound := channel.outbound.receive report.feedback
      reports := rest } := by
  have hmem : report ∈ channel.reports := hwire ▸ List.mem_cons_self
  have hsettles := hsound.sends.settles_receive report.feedback
  intro hall
  simp only [hsettles.next_eq] at hall ⊢
  rcases hheard hall with hnone | ⟨answer, hanswer, hacked⟩
  · have hsuffix := hsettles.flights_suffix
    rw [hnone, List.suffix_nil] at hsuffix
    exact .inl hsuffix
  · rw [hwire] at hanswer
    rcases List.mem_cons.mp hanswer with rfl | hlater
    · left
      rcases hcalm.receive_cases hsound hmem hrst hindex with ⟨hnone, -⟩ | ⟨ack, hack, -, hreceive⟩
      · rw [hnone] at hacked
        cases hacked
      · rw [hack, Option.some.injEq] at hacked
        rw [hreceive, hacked]
        exact Outbound.flights_acknowledge_next _ hcalm.balanced.tiles
    · exact .inr ⟨answer, hlater, hacked⟩

-- A report that nobody looks at.
theorem ignore (hcalm : channel.Calm patience stale fresh reach) {rest : List Report}
    (hwire : channel.reports = report :: rest) :
    { channel with reports := rest }.Calm patience stale fresh reach := by
  have hrest : ∀ other ∈ rest, other ∈ channel.reports := fun other hother =>
    hwire ▸ List.mem_cons_of_mem report hother
  have hordered := hcalm.ordered
  rw [hwire, List.pairwise_cons] at hordered
  refine ⟨⟨hcalm.flights_eq, hcalm.follows, hcalm.stale_le, hcalm.has_lt⟩, hcalm.balanced,
    hcalm.roomy, hordered.2, fun other hother => hcalm.recent other (hrest other hother),
    fun other hother => hcalm.offers other (hrest other hother),
    fun other hother => hcalm.opens other (hrest other hother), hcalm.offered, hcalm.fits,
    hcalm.arrived.imp_right fun hsome => ?_⟩
  obtain ⟨probe, hprobing⟩ := hsome
  exact ⟨probe, hprobing.proceed rfl hprobing.head_eq hprobing.stale_eq hprobing.patient⟩

-- What the receiver says of itself goes behind all that it has said.
theorem reply (hcalm : channel.Calm patience stale fresh reach) (hsound : channel.Sound)
    (horderly : channel.inbound.Orderly) (more : List Report)
    (hmore : ∀ report ∈ more,
      report.acked = channel.inbound.initial.map (fun _ => channel.inbound.received) ∧
        report.feedback.window = channel.inbound.feedback.window) :
    { channel with reports := channel.reports ++ more }.Calm patience stale fresh reach := by
  have hacked : ∀ report ∈ more, report.acked.getD 0 = channel.inbound.confirmed :=
    fun report hmem => congrArg (·.getD 0) (hmore report hmem).1
  have hwindow := channel.inbound.toNat_window
  have hedge := confirmed_add_free_le channel
  have hconfirmed : ∀ report ∈ channel.reports,
      report.acked.getD 0 ≤ channel.inbound.confirmed := by
    intro report hmem
    cases hack : report.acked with
    | none => exact Nat.zero_le _
    | some ack => exact (hsound.truthful report hmem).2 ack hack
  refine ⟨⟨hcalm.flights_eq, hcalm.follows, hcalm.stale_le, hcalm.has_lt⟩, hcalm.balanced,
    hcalm.roomy, ?_, ?_, ?_, ?_, hcalm.offered, hcalm.fits,
    hcalm.arrived.imp_right fun hsome => ?_⟩
  · refine List.pairwise_append.mpr ⟨hcalm.ordered, ?_, fun first hfirst second hsecond => ?_⟩
    · refine List.pairwise_of_forall_mem_list fun first hfirst second hsecond => ?_
      rw [hacked first hfirst, hacked second hsecond]
    · rw [hacked second hsecond]
      exact hconfirmed first hfirst
  · intro report hmem
    rcases List.mem_append.mp hmem with hold | hnew
    · exact hcalm.recent report hold
    · rw [hacked report hnew]
      exact hsound.acked
  · intro report hmem
    rcases List.mem_append.mp hmem with hold | hnew
    · exact hcalm.offers report hold
    · rw [hacked report hnew, (hmore report hnew).2, hwindow]
      change _ ≤ channel.inbound.edge
      omega
  · intro report hmem hnone
    rcases List.mem_append.mp hmem with hold | hnew
    · exact hcalm.opens report hold hnone
    · -- who has not heard of the stream has all its room
      obtain ⟨hack, hsame⟩ := hmore report hnew
      rw [hnone, eq_comm, Option.map_eq_none_iff] at hack
      have hfree := hsound.takes.free_of_unlearned horderly hack
      have hroomy := hcalm.roomy
      intro hzero
      rw [hsame] at hzero
      rw [hzero, UInt16.toNat_zero] at hwindow
      omega
  · obtain ⟨probe, hprobing⟩ := hsome
    exact ⟨probe, hprobing.proceed rfl hprobing.head_eq hprobing.stale_eq hprobing.patient⟩

end Reports

-- What goes out ends where the receiver has room, or it is a probe.
theorem send (hcalm : channel.Calm patience stale fresh reach) {flights : List Flight}
    (hfollows : Follows channel.outbound.initial channel.outbound.next flights
      channel.outbound.send.1.next)
    (hkept : ∀ flight ∈ flights, 0 < flight.chunk.span →
      flight ∈ channel.outbound.send.1.flights) :
    { channel with
      outbound := channel.outbound.send.1
      flights := channel.flights ++ flights }.Calm patience stale (fresh ++ flights) reach := by
  have hbalanced := hcalm.balanced.send
  have hbase := channel.outbound.base_send
  have hnext := channel.outbound.next_send_le hcalm.balanced.inFlight_le
  have hoffered := hcalm.offered
  have hbefore : channel.outbound.base ≤ channel.outbound.next := Nat.sub_le _ _
  refine ⟨hcalm.toFlows.append channel.outbound.initial_send hfollows, hbalanced, hcalm.roomy,
    hcalm.ordered, ?_, hcalm.offers, hcalm.opens, ?_, ?_, hcalm.arrived.imp_right fun hsome => ?_⟩
  · rw [hbase]
    exact hcalm.recent
  · rw [hbase, Outbound.window_send]
    exact hoffered
  · intro flight hmem hspan
    rcases List.mem_append.mp hmem with hold | hnew
    · exact (hcalm.fits flight hold hspan).imp_right fun hprobe =>
        ⟨hprobe.1, channel.outbound.head?_flights_send hprobe.2⟩
    · obtain ⟨hstart, hstop⟩ := hfollows.mem flight hnew
      rw [Outbound.usableWindow] at hnext
      rw [flight.stop_eq] at hstop ⊢
      by_cases hwindow : channel.outbound.window.toNat = 0
      · refine .inr ⟨by omega, hbalanced.head?_of_start (hkept flight hnew hspan) ?_⟩
        omega
      · exact .inl (by change _ ≤ channel.inbound.edge; omega)
  · obtain ⟨probe, hprobing⟩ := hsome
    refine ⟨probe, hprobing.proceed rfl (channel.outbound.head?_flights_send hprobing.head_eq)
      hprobing.stale_eq ?_⟩
    rw [Outbound.retransmissions_send]
    exact hprobing.patient

-- Without patience for probes there are none, so what was sent has come in.
theorem has_of_silent (hcalm : channel.Calm 0 stale fresh reach) (hflights : channel.flights = []) :
    ∀ index < channel.outbound.next, channel.inbound.Has index := by
  obtain ⟨rfl, rfl⟩ := List.append_eq_nil_iff.mp (hcalm.flights_eq.symm.trans hflights)
  have hreach : reach = channel.outbound.next := hcalm.follows
  rcases hcalm.arrived with ⟨-, hall⟩ | ⟨probe, hprobing⟩
  · exact hreach ▸ hall
  · exact absurd (hprobing.patient rfl) (Nat.not_lt_zero _)

-- With nothing on the way the alarm can only be due for a probe. It is sent again, and there
-- is patience for that.
theorem wait (hcalm : channel.Calm patience stale fresh reach) (hsound : channel.Sound)
    (horderly : channel.inbound.Orderly) (hheard : channel.Heard) (hflights : channel.flights = [])
    (hreports : channel.reports = []) (time : Millis) :
    (channel.outbound.elapse time).1.retransmissions ≤ patience ∧
      ∃ again : List Flight, (∀ flight ∈ again, flight ∈ channel.outbound.flights) ∧
        again.map Flight.chunk = (channel.outbound.elapse time).2.toList ∧
        { channel with
          outbound := (channel.outbound.elapse time).1
          flights := again }.Calm patience again [] reach := by
  have hempty := hflights.symm.trans hcalm.flights_eq
  obtain ⟨rfl, rfl⟩ := List.append_eq_nil_iff.mp hempty.symm
  have hreach : reach = channel.outbound.next := hcalm.follows
  obtain ⟨alarm, count, helapse⟩ := channel.outbound.elapse_eq time
  -- what time leaves alone
  have hkeeps : ∀ again : List Flight,
      (∀ flight ∈ again, 0 < flight.chunk.span → flight.stop ≤ reach) →
      (again = [] ∧ (∀ index < reach, channel.inbound.Has index) ∨ ∃ probe, Probing patience
        { channel with outbound := (channel.outbound.elapse time).1, flights := again } again reach
        probe) →
      { channel with
        outbound := (channel.outbound.elapse time).1
        flights := again }.Calm patience again [] reach := by
    intro again hstale harrived
    have hbalanced := hcalm.balanced.elapse time
    rw [helapse] at hbalanced harrived ⊢
    exact ⟨⟨(List.append_nil again).symm, hcalm.follows, hstale, hcalm.has_lt⟩, hbalanced,
      hcalm.roomy, hcalm.ordered, hcalm.recent, hcalm.offers, hcalm.opens, hcalm.offered,
      fun _ hmem => absurd hmem List.not_mem_nil, harrived⟩
  rcases hcalm.arrived with ⟨-, hall⟩ | ⟨probe, hprobing⟩
  · have hnone := hsound.flights_of_silent horderly hheard hreports (hreach ▸ hall)
    have hsettled := (hcalm.balanced.elapse time).settled (by
      rw [Outbound.flights_elapse]
      exact hnone)
    refine ⟨hsettled ▸ Nat.zero_le patience, [], fun _ hmem => absurd hmem List.not_mem_nil, ?_,
      hkeeps [] (fun _ hmem => absurd hmem List.not_mem_nil) (.inl ⟨rfl, hall⟩)⟩
    rcases channel.outbound.elapse_cases time with ⟨hquiet, -⟩ | ⟨oldest, hhead, -⟩
    · rw [hquiet]
      rfl
    · rw [hnone] at hhead
      cases hhead
  · have hpatient := hprobing.patient rfl
    rcases channel.outbound.elapse_cases time with ⟨hquiet, hcount⟩ | ⟨oldest, hhead, hagain, hcount⟩
    · refine ⟨by omega, [], fun _ hmem => absurd hmem List.not_mem_nil, by rw [hquiet]; rfl,
        hkeeps [] (fun _ hmem => absurd hmem List.not_mem_nil) (.inr ⟨probe, ?_⟩)⟩
      refine hprobing.proceed rfl ?_ (.inl rfl) fun _ =>
        Nat.lt_of_le_of_lt (Nat.le_of_eq hcount) hpatient
      rw [Outbound.flights_elapse]
      exact hprobing.head_eq
    · obtain rfl := Option.some.inj (hhead.symm.trans hprobing.head_eq)
      have hmem : ∀ flight ∈ [oldest], flight = oldest := fun _ => List.mem_singleton.mp
      refine ⟨by omega, [oldest], fun flight hflight => ?_, by rw [hagain]; rfl,
        hkeeps [oldest] (fun flight hflight _ => ?_) (.inr ⟨oldest, ?_⟩)⟩
      · rw [hmem flight hflight]
        exact List.mem_of_head? hhead
      · rw [hmem flight hflight, oldest.stop_eq, hprobing.span_eq]
        exact hprobing.lt_reach
      · refine hprobing.proceed rfl ?_ (.inr rfl) fun hnone => by cases hnone
        rw [Outbound.flights_elapse]
        exact hhead

-- What the application writes waits until it is sent.
theorem outgoing (hcalm : channel.Calm patience stale fresh reach) (op : Pipe.Op) :
    { channel with
      outbound := { channel.outbound with input := (channel.outbound.input.apply op).2 }
      written := channel.written ++ op.added channel.outbound.input }.Calm patience stale fresh
      reach := by
  refine ⟨⟨hcalm.flights_eq, hcalm.follows, hcalm.stale_le, hcalm.has_lt⟩,
    hcalm.balanced.mapInput _, hcalm.roomy, hcalm.ordered, hcalm.recent, hcalm.offers, hcalm.opens,
    hcalm.offered, hcalm.fits, hcalm.arrived.imp_right fun hsome => ?_⟩
  obtain ⟨probe, hprobing⟩ := hsome
  exact ⟨probe, hprobing.proceed rfl hprobing.head_eq hprobing.stale_eq hprobing.patient⟩

-- What it reads makes room.
theorem incoming (hcalm : channel.Calm patience stale fresh reach) (op : Pipe.Op)
    (hop : op.feeds = false) :
    { channel with
      inbound := channel.inbound.mapStream fun pipe => (pipe.apply op).2
      taken := channel.taken ++ op.removed channel.inbound.stream }.Calm patience stale fresh
      reach := by
  have hhas := channel.inbound.has_apply op hop
  have hedge := (Inbound.Tidy.stands_reader channel.inbound op hop).edge_le
  refine ⟨⟨hcalm.flights_eq, hcalm.follows, hcalm.stale_le, fun index hin =>
      hcalm.has_lt index ((hhas index).mp hin)⟩, hcalm.balanced, ?_, hcalm.ordered, hcalm.recent,
    fun report hmem => Nat.le_trans (hcalm.offers report hmem) hedge, hcalm.opens,
    Nat.le_trans hcalm.offered hedge, fun flight hmem hspan =>
      (hcalm.fits flight hmem hspan).imp_left fun hfits => Nat.le_trans hfits hedge, ?_⟩
  · exact Nat.lt_of_lt_of_eq hcalm.roomy (Pipe.capacity_apply _ op).symm
  · refine hcalm.arrived.imp (fun hall => ⟨hall.1, fun index hlt =>
      (hhas index).mpr (hall.2 index hlt)⟩) fun hsome => ?_
    obtain ⟨probe, hprobing⟩ := hsome
    exact ⟨probe, hprobing.head_eq, hprobing.span_eq, hprobing.known,
      (Inbound.confirmed_apply _ op hop).trans hprobing.confirmed_eq, hprobing.lt_reach,
      fun index hlt hother => (hhas index).mpr (hprobing.has index hlt hother), hprobing.stale_eq,
      hprobing.patient⟩

end Calm

theorem calm_start (patience senderCapacity receiverCapacity : Nat) (initial : SeqNo)
    (timeout : Millis) (payloadLimit : Nat) (hroomy : 0 < receiverCapacity) :
    (start senderCapacity receiverCapacity initial timeout payloadLimit).Calm patience [] [] 0 where
  toFlows := Flows.ofSound
    (sound_start senderCapacity receiverCapacity initial timeout payloadLimit)
    (Inbound.orderly_ofCapacity receiverCapacity)
  balanced := Outbound.balanced_ofInput _ initial timeout payloadLimit
  roomy := hroomy
  ordered := List.Pairwise.nil
  recent := fun _ hmem => absurd hmem List.not_mem_nil
  offers := fun _ hmem => absurd hmem List.not_mem_nil
  opens := fun _ hmem => absurd hmem List.not_mem_nil
  offered := Nat.le_add_right 1 _
  fits := fun _ hmem => absurd hmem List.not_mem_nil
  arrived := .inl ⟨rfl, fun _ hlt => absurd hlt (Nat.not_lt_zero _)⟩

theorem heard_incoming {channel : Channel} (hheard : channel.Heard) (op : Pipe.Op)
    (hop : op.feeds = false) :
    Heard { channel with
      inbound := channel.inbound.mapStream fun pipe => (pipe.apply op).2
      taken := channel.taken ++ op.removed channel.inbound.stream } := by
  unfold Heard
  rw [Inbound.confirmed_apply _ op hop]
  exact hheard

-- Who sends nothing new goes on to wait for what it has waited for.
theorem heard_send {channel : Channel} (hsound : channel.Sound) (hheard : channel.Heard)
    (flights : List Flight) :
    Heard { channel with
      outbound := channel.outbound.send.1
      flights := channel.flights ++ flights } := by
  have hle := hsound.confirmed_le_next
  have hnext := channel.outbound.next_send
  intro hall
  change channel.inbound.confirmed = channel.outbound.send.1.next at hall
  have hsame : channel.outbound.send.1.next = channel.outbound.next := by omega
  have hflights : channel.outbound.send.1.flights = channel.outbound.flights := by
    rw [Outbound.flights_send]
    cases hfresh : channel.outbound.send.2 with
    | nil => exact List.append_nil _
    | cons chunk rest =>
        have hspan := Outbound.span_pos_of_mem_fill channel.outbound channel.outbound.usableWindow
          chunk (by rw [show (channel.outbound.fill channel.outbound.usableWindow).2 = _ from hfresh]
                    exact List.mem_cons_self)
        rw [hfresh, Outbound.spans_cons] at hnext
        omega
  rw [hflights, hsame]
  exact hheard (hall.trans hsame)

theorem heard_elapse {channel : Channel} (hheard : channel.Heard) (time : Millis)
    (flights : List Flight) :
    Heard { channel with
      outbound := (channel.outbound.elapse time).1
      flights := flights } := by
  obtain ⟨alarm, count, helapse⟩ := channel.outbound.elapse_eq time
  rw [helapse]
  exact hheard

theorem heard_report {channel : Channel} (hheard : channel.Heard) (more : List Report) :
    Heard { channel with reports := channel.reports ++ more } := by
  intro hall
  rcases hheard hall with hnone | ⟨report, hmem, hacked⟩
  · exact .inl hnone
  · exact .inr ⟨report, List.mem_append_left more hmem, hacked⟩

end Channel

end UserTcp
