import UserTcp.Proofs.Channel.Sound

namespace UserTcp.Channel.Sound

variable {channel : Channel}

-- What the application does at the input. The bytes that it adds are not sent yet.
theorem outgoing (hsound : channel.Sound) (op : Pipe.Op) (hop : op.takes = false) :
    { channel with
      outbound := { channel.outbound with input := (channel.outbound.input.apply op).2 }
      written := channel.written ++ op.added channel.outbound.input }.Sound := by
  have hsent : sent { channel with
      outbound := { channel.outbound with input := (channel.outbound.input.apply op).2 }
      written := channel.written ++ op.added channel.outbound.input } = channel.sent := by
    simp only [sent, Pipe.popped_apply _ op hop]
    exact List.take_append_of_le_length hsound.sends.input.popped_le
  constructor
  · exact hsound.sends.apply op hop
  · exact hsound.inFlight_le
  · rw [hsent]
    exact hsound.takes
  · rw [hsent]
    exact hsound.taken_eq
  · exact hsound.learned
  · exact hsound.acked
  · intro flight hmem hspan
    rw [hsent]
    exact hsound.carried flight hmem hspan
  · exact hsound.truthful

theorem incoming (hsound : channel.Sound) (op : Pipe.Op) (hop : op.feeds = false) :
    { channel with
      inbound := channel.inbound.mapStream fun pipe => (pipe.apply op).2
      taken := channel.taken ++ op.removed channel.inbound.stream }.Sound where
  sends := hsound.sends
  inFlight_le := hsound.inFlight_le
  takes := hsound.takes.apply op hop
  taken_eq := by
    rw [hsound.taken_eq]
    exact (hsound.takes.assembles.take_popped_apply op hop).symm
  learned := hsound.learned
  acked := by
    rw [Inbound.confirmed_apply _ op hop]
    exact hsound.acked
  carried := hsound.carried
  truthful := by
    intro report hmem
    rw [Truthful, Inbound.confirmed_apply _ op hop]
    exact hsound.truthful report hmem

theorem fail (hsound : channel.Sound) :
    { channel with inbound := channel.inbound.mapStream Pipe.fail }.Sound := by
  have hfail := hsound.incoming .fail rfl
  simp only [Pipe.Op.removed, List.append_nil] at hfail
  exact hfail

-- The payload of a fresh chunk is what the stream that is sent goes on with.
theorem sent_launch (channel : Channel) (window : Nat) :
    sent { channel with
      outbound := channel.outbound.launch (channel.outbound.cut window).1
        (channel.outbound.cut window).2 } =
      channel.sent ++ (channel.written.drop channel.outbound.input.popped).take
        (min (channel.outbound.taking window) channel.outbound.input.buffered) := by
  simp only [sent, Outbound.launch, Outbound.cut_eq, Pipe.pop, List.take_add]

theorem launch (hsound : channel.Sound) (hfin : channel.outbound.finSent = false) (window : Nat)
    (hwindow : window ≤ 65535) (hroom : channel.outbound.inFlight < window)
    (hspan : 0 < (channel.outbound.cut window).1.span) :
    { channel with
      outbound := channel.outbound.launch (channel.outbound.cut window).1
        (channel.outbound.cut window).2 }.Sound := by
  have hle := channel.outbound.span_cut_le window hroom
  have hsent := sent_launch channel window
  have hopen : ¬ channel.outbound.finSent = true := by
    rw [hfin]
    exact Bool.false_ne_true
  constructor
  · exact hsound.sends.launch hfin window hspan
  · simp only [Outbound.launch]
    omega
  · rw [hsent]
    exact hsound.takes.grow _ _ fun hended => absurd hended hopen
  · rw [hsent]
    exact hsound.taken_eq.trans (List.take_append_of_le_length hsound.takes.popped_le).symm
  · intro hknown
    simp only [Outbound.launch, hsound.learned hknown, Bool.true_or]
  · simp only [Outbound.launch]
    rw [Nat.add_sub_add_right]
    exact hsound.acked
  · intro flight hmem hflight
    obtain ⟨hstop, hplaced⟩ := hsound.carried flight hmem hflight
    rw [hsent]
    exact ⟨Nat.le_trans hstop (Nat.le_add_right _ _),
      hplaced.grow _ _ fun hended => absurd hended hopen⟩
  · exact hsound.truthful

theorem fill (hsound : channel.Sound) (window : Nat) (hwindow : window ≤ 65535) :
    { channel with outbound := (channel.outbound.fill window).1 }.Sound := by
  refine Outbound.fill_keeps (fun outbound => { channel with outbound := outbound }.Sound) window
    ?_ channel.outbound hsound
  intro outbound hbefore hroom hfin hspan
  have hafter := launch hbefore hfin window hwindow hroom hspan
  exact hafter

theorem send (hsound : channel.Sound) :
    { channel with outbound := channel.outbound.send.1 }.Sound := by
  refine hsound.fill _ ?_
  have hwindow := channel.outbound.window.toNat_lt
  rw [Outbound.usableWindow]
  omega

-- The sender forgets what is acknowledged and no more.
theorem settle (hsound : channel.Sound) {after : Outbound} {ack : Nat}
    (hsettles : Outbound.Settles channel.outbound after ack)
    (hack : ack ≤ channel.inbound.confirmed) : { channel with outbound := after }.Sound := by
  have hsent : sent { channel with outbound := after } = channel.sent := by
    rw [sent, hsettles.popped_eq]
    rfl
  constructor
  · exact hsound.sends.settle hsettles
  · exact Nat.le_trans hsettles.inFlight_le hsound.inFlight_le
  · rw [hsent, hsettles.initial_eq, hsettles.finSent_eq]
    exact hsound.takes
  · rw [hsent]
    exact hsound.taken_eq
  · rw [hsettles.synSent_eq]
    exact hsound.learned
  · rcases hsettles.acked with hsame | hcovered
    · rw [hsame, hsettles.next_eq]
      exact hsound.acked
    · exact Nat.le_trans hcovered hack
  · intro flight hmem hspan
    rw [hsent, hsettles.next_eq, hsettles.initial_eq, hsettles.finSent_eq]
    exact hsound.carried flight hmem hspan
  · intro report hmem
    rw [Truthful, hsettles.initial_eq]
    exact hsound.truthful report hmem

-- A report comes to the sender before half a lap has passed since the index it acknowledges.
theorem acknowledge (hsound : channel.Sound) (report : Report) (hmem : report ∈ channel.reports)
    (htimely : ∀ ack, report.acked = some ack → channel.outbound.next < ack + SeqNo.lap / 2) :
    { channel with outbound := channel.outbound.receive report.feedback }.Sound := by
  refine hsound.settle (hsound.sends.settles_receive report.feedback) ?_
  obtain ⟨hackno, hconfirmed⟩ := hsound.truthful report hmem
  rw [Outbound.acked, hackno]
  cases hacked : report.acked with
  | none => exact Nat.zero_le _
  | some ack =>
      have hle := hconfirmed ack hacked
      have hnext := hsound.confirmed_le_next
      have hnearest := SeqNo.nearestIndex_le ack channel.outbound.next channel.outbound.initial
        (Nat.le_trans hle hnext) (htimely ack hacked)
      exact Nat.le_trans hnearest hle

-- A chunk comes to the receiver before half a lap has passed since its place.
theorem deliver (hsound : channel.Sound) (flight : Flight) (hmem : flight ∈ channel.flights)
    (htimely : channel.inbound.stream.pushed + 1 < flight.start + SeqNo.lap / 2) :
    { channel with inbound := channel.inbound.receive flight.chunk }.Sound := by
  have hcarried := hsound.carried flight hmem
  have hgrows := channel.inbound.confirmed_le_receive flight.chunk hsound.takes.assembles.intact
  constructor
  · exact hsound.sends
  · exact hsound.inFlight_le
  · exact hsound.takes.receive flight.chunk flight.start (fun hspan => (hcarried hspan).2)
      hsound.length_sent_lt htimely
  · rw [Inbound.popped_receive]
    exact hsound.taken_eq
  · intro hknown
    cases hinitial : channel.inbound.initial with
    | some known =>
        exact hsound.learned (by rw [hinitial]; exact Option.some_ne_none known)
    | none =>
        have hsyn := channel.inbound.syn_of_initial_receive flight.chunk hinitial hknown
        have hspan := flight.chunk.span_pos_of_syn hsyn
        have hstop := (hcarried hspan).1
        unfold Flight.stop at hstop
        exact hsound.sends.synSent_of_next_pos (by omega)
  · exact Nat.le_trans hsound.acked hgrows
  · exact hsound.carried
  · intro report hreport
    obtain ⟨hackno, hconfirmed⟩ := hsound.truthful report hreport
    exact ⟨hackno, fun ack hack => Nat.le_trans (hconfirmed ack hack) hgrows⟩

theorem carried_of_mem_flights (hsound : channel.Sound) (flight : Flight)
    (hmem : flight ∈ channel.outbound.flights) : channel.Carried flight := by
  intro _
  have hstop := (hsound.sends.tiles.mem flight hmem).2.2
  exact ⟨hstop, hsound.sends.placed_sent flight.chunk flight.start
    (hsound.sends.placed flight hmem) hstop⟩

theorem truthful_of_ackno (hsound : channel.Sound) (report : Report)
    (hacked : report.acked = channel.inbound.initial.map fun _ => channel.inbound.received)
    (hackno : report.feedback.ackno = channel.inbound.feedback.ackno) :
    channel.Truthful report := by
  unfold Truthful
  rw [hackno, hacked, Inbound.feedback, Inbound.confirmed]
  cases hinitial : channel.inbound.initial with
  | none => exact ⟨rfl, fun _ hack => by cases hack⟩
  | some known =>
      rw [hsound.takes.initial_eq known hinitial]
      exact ⟨rfl, fun _ hack => Nat.le_of_eq (Option.some.inj hack).symm⟩

-- What is on the way may get lost, and what is sent is added to it.
theorem transmit (hsound : channel.Sound) (flights : List Flight) (reports : List Report)
    (hflights : ∀ flight ∈ flights, flight ∈ channel.flights ∨
      flight ∈ channel.outbound.flights ∨ flight.chunk.span = 0)
    (hreports : ∀ report ∈ reports, report ∈ channel.reports ∨
      report.acked = channel.inbound.initial.map (fun _ => channel.inbound.received) ∧
        report.feedback.ackno = channel.inbound.feedback.ackno) :
    { channel with flights := flights, reports := reports }.Sound where
  sends := hsound.sends
  inFlight_le := hsound.inFlight_le
  takes := hsound.takes
  taken_eq := hsound.taken_eq
  learned := hsound.learned
  acked := hsound.acked
  carried := by
    intro flight hmem hspan
    rcases hflights flight hmem with hold | hnew | hempty
    · exact hsound.carried flight hold hspan
    · exact hsound.carried_of_mem_flights flight hnew hspan
    · omega
  truthful := by
    intro report hmem
    rcases hreports report hmem with hold | ⟨hacked, hackno⟩
    · exact hsound.truthful report hold
    · exact hsound.truthful_of_ackno report hacked hackno

end UserTcp.Channel.Sound
