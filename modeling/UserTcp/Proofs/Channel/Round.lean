import UserTcp.Proofs.Channel.Delivery
import UserTcp.Proofs.Channel.Run
import UserTcp.Proofs.Inbound.Reaches
import UserTcp.Proofs.Outbound.Progress

namespace UserTcp.Channel

-- Nothing is on its way any more.
def discard (channel : Channel) : Channel :=
  { channel with flights := [], reports := [] }

-- Readers take all that there is for them.
def readAll (channel : Channel) : Channel :=
  let op := Pipe.Op.read channel.inbound.stream.buffered
  { channel with
    inbound := channel.inbound.mapStream fun pipe => (pipe.apply op).2
    taken := channel.taken ++ op.removed channel.inbound.stream }

-- A chunk arrives, and what it brings is read at once.
def hear (channel : Channel) (chunk : Chunk) : Channel :=
  readAll { channel with inbound := channel.inbound.receive chunk }

-- The sender is told how far the receiver is.
def answer (channel : Channel) : Channel :=
  { channel with outbound := channel.outbound.receive channel.inbound.feedback }

-- One try to get on. The sender sends what it can and waits for its alarm, and everything
-- that it sent meanwhile arrives.
def heard (channel : Channel) : Channel :=
  channel.outbound.turn.2.foldl hear (readAll { channel with outbound := channel.outbound.turn.1 })

-- Then it gets one answer.
def round (channel : Channel) : Channel :=
  channel.heard.answer

-- From here on nothing but loss can keep the two parties from getting on: the stream has an
-- end and is not broken, and both sides have room for a byte.
structure Ready (channel : Channel) : Prop where
  fit : channel.Fit
  closed : channel.outbound.input.closed = true
  whole : channel.outbound.input.failed = false
  unfailed : channel.inbound.stream.failed = false
  room : 0 < channel.inbound.stream.capacity
  limit : 0 < channel.outbound.payloadLimit
  -- Indices have 64 bits.
  index : channel.written.length + 2 < SeqNo.indexLimit

theorem buffer_readAll (channel : Channel) : channel.readAll.inbound.stream.buffer = [] := by
  simp only [readAll, Inbound.stream_mapStream, Pipe.apply, Pipe.read_eq, Pipe.pop, Pipe.buffered,
    List.drop_length]

theorem confirmed_readAll (channel : Channel) :
    channel.readAll.inbound.confirmed = channel.inbound.confirmed :=
  Inbound.confirmed_apply _ _ rfl

@[simp] theorem outbound_foldl_hear (channel : Channel) (chunks : List Chunk) :
    (chunks.foldl hear channel).outbound = channel.outbound := by
  induction chunks generalizing channel with
  | nil => rfl
  | cons chunk rest ih => exact ih (channel.hear chunk)

@[simp] theorem written_foldl_hear (channel : Channel) (chunks : List Chunk) :
    (chunks.foldl hear channel).written = channel.written := by
  induction chunks generalizing channel with
  | nil => rfl
  | cons chunk rest ih => exact ih (channel.hear chunk)

theorem buffer_foldl_hear (channel : Channel) (chunks : List Chunk)
    (hdrained : channel.inbound.stream.buffer = []) :
    (chunks.foldl hear channel).inbound.stream.buffer = [] := by
  induction chunks generalizing channel with
  | nil => exact hdrained
  | cons chunk rest ih => exact ih (channel.hear chunk) (buffer_readAll _)

namespace Fit

variable {channel : Channel}

theorem next_le (hfit : channel.Fit) : channel.outbound.next ≤ channel.written.length + 2 :=
  hfit.sound.sends.next_le

theorem pushed_le_popped (hfit : channel.Fit) :
    channel.inbound.stream.pushed ≤ channel.outbound.input.popped :=
  hfit.sound.length_sent ▸ hfit.sound.takes.pushed_le

-- What waits for its acknowledgment is never too late.
theorem timely_of_mem_flights (hfit : channel.Fit) (flight : Flight)
    (hmem : flight ∈ channel.outbound.flights) :
    channel.inbound.stream.pushed + 1 < flight.start + SeqNo.lap / 2 := by
  have hstart := (hfit.sound.sends.tiles.mem flight hmem).1
  have hinFlight := hfit.sound.inFlight_le
  have hpushed := hfit.pushed_le_popped
  have hnext := hfit.sound.sends.next_eq
  simp only [SeqNo.lap]
  omega

theorem receive_of_mem_flights (hfit : channel.Fit) (flight : Flight)
    (hmem : flight ∈ channel.outbound.flights) :
    { channel with inbound := channel.inbound.receive flight.chunk }.Fit := by
  -- the flight is put on its way, arrives, and is no longer on its way
  have hsent := hfit.transmit (channel.flights ++ [flight]) channel.reports
    (fun other hother => by
      rcases List.mem_append.mp hother with hold | hnew
      · exact .inl hold
      · exact .inr (.inl (List.mem_singleton.mp hnew ▸ hmem)))
    (fun _ hreport => .inl hreport)
  have harrived := hsent.deliver flight (List.mem_append_right _ (List.mem_singleton_self flight))
    (hfit.timely_of_mem_flights flight hmem)
  exact harrived.transmit channel.flights channel.reports
    (fun _ hother => .inl (List.mem_append_left _ hother)) (fun _ hreport => .inl hreport)

end Fit

namespace Ready

variable {channel : Channel}

theorem discard (hready : channel.Ready) : channel.discard.Ready where
  fit := hready.fit.transmit [] [] (fun _ hmem => absurd hmem List.not_mem_nil)
    (fun _ hmem => absurd hmem List.not_mem_nil)
  closed := hready.closed
  whole := hready.whole
  unfailed := hready.unfailed
  room := hready.room
  limit := hready.limit
  index := hready.index

theorem send (hready : channel.Ready) :
    Ready { channel with outbound := channel.outbound.send.1 } := by
  have hinput := Outbound.fill_keeps
    (fun after => after.input.closed = true ∧ after.input.failed = false ∧ 0 < after.payloadLimit)
    channel.outbound.usableWindow (fun before hbefore _ _ _ => by
      simp only [Outbound.launch, Outbound.cut_eq]
      exact hbefore) channel.outbound ⟨hready.closed, hready.whole, hready.limit⟩
  exact ⟨hready.fit.send, hinput.1, hinput.2.1, hready.unfailed, hready.room, hinput.2.2,
    hready.index⟩

theorem elapse (hready : channel.Ready) (time : Millis) :
    Ready { channel with outbound := (channel.outbound.elapse time).1 } where
  fit := hready.fit.elapse time
  closed := by
    rw [Outbound.input_elapse]
    exact hready.closed
  whole := by
    rw [Outbound.input_elapse]
    exact hready.whole
  unfailed := hready.unfailed
  room := hready.room
  limit := by
    rw [(hready.fit.sound.sends.settles_elapse time).payloadLimit_eq]
    exact hready.limit
  index := hready.index

theorem readAll (hready : channel.Ready) : channel.readAll.Ready where
  fit := hready.fit.incoming _ rfl
  closed := hready.closed
  whole := hready.whole
  unfailed := by
    simp only [Channel.readAll, Inbound.stream_mapStream, Pipe.apply, Pipe.read_eq]
    exact hready.unfailed
  room := by
    simp only [Channel.readAll, Inbound.stream_mapStream, Pipe.capacity_apply]
    exact hready.room
  limit := hready.limit
  index := hready.index

theorem hear (hready : channel.Ready) (flight : Flight)
    (hmem : flight ∈ channel.outbound.flights) : (channel.hear flight.chunk).Ready := by
  have hgains := channel.inbound.gains_receive flight.chunk
    (hready.fit.unbroken hready.whole flight hmem)
  refine readAll ⟨hready.fit.receive_of_mem_flights flight hmem, hready.closed, hready.whole, ?_, ?_,
    hready.limit, hready.index⟩
  · rw [hgains.failed_eq]
    exact hready.unfailed
  · rw [hgains.capacity_eq]
    exact hready.room

theorem foldl_hear (hready : channel.Ready) (chunks : List Chunk)
    (hchunks : ∀ chunk ∈ chunks, ∃ flight ∈ channel.outbound.flights, flight.chunk = chunk) :
    (chunks.foldl Channel.hear channel).Ready := by
  induction chunks generalizing channel with
  | nil => exact hready
  | cons chunk rest ih =>
      obtain ⟨hfirst, hrest⟩ := List.forall_mem_cons.mp hchunks
      obtain ⟨flight, hmem, rfl⟩ := hfirst
      exact ih (hready.hear flight hmem) hrest

-- When the oldest flight arrives and there is room, the receiver has it to its end.
theorem stop_le_confirmed_hear (hready : channel.Ready)
    (hdrained : channel.inbound.stream.buffer = []) {oldest : Flight} {rest : List Flight}
    (hflights : channel.outbound.flights = oldest :: rest) :
    oldest.stop ≤ (channel.hear oldest.chunk).inbound.confirmed := by
  have hsound := hready.fit.sound
  have hmem : oldest ∈ channel.outbound.flights := hflights ▸ List.mem_cons_self
  have htiles := hsound.sends.tiles
  rw [hflights] at htiles
  obtain ⟨hstart, hspan, -⟩ := htiles
  have hplaced := (hsound.carried_of_mem_flights oldest hmem hspan).2
  have hfits := hready.fit.fits.span_le oldest hmem
  have hroom := hready.room
  have hpayload : oldest.chunk.payload.length ≤ channel.inbound.stream.capacity := by
    unfold Chunk.span at hfits
    omega
  have hpushed := hready.fit.pushed_le_popped
  have hpopped := hsound.sends.input.popped_le
  have hindex := hready.index
  have hbelow : channel.inbound.stream.pushed + 1 < SeqNo.indexLimit := by omega
  rw [Channel.hear, confirmed_readAll]
  exact hsound.takes.stop_le_confirmed_receive oldest.chunk oldest.start hplaced
    (hready.fit.unbroken hready.whole oldest hmem) (hstart ▸ hsound.acked)
    (hready.fit.timely_of_mem_flights oldest hmem) hbelow hdrained hroom hpayload

-- A receiver that has received anything says so in a way that the sender understands.
theorem receive_feedback (hready : channel.Ready) (hconfirmed : 0 < channel.inbound.confirmed) :
    channel.outbound.receive channel.inbound.feedback =
      { channel.outbound with window := channel.inbound.feedback.window }.acknowledge
        channel.inbound.confirmed := by
  have hsound := hready.fit.sound
  have hle := hsound.confirmed_le_next
  have hacked := hsound.acked
  have hinFlight := hsound.inFlight_le
  have hnext := hready.fit.next_le
  have hindex := hready.index
  cases hinitial : channel.inbound.initial with
  | none =>
      rw [channel.inbound.confirmed_of_none hinitial] at hconfirmed
      omega
  | some known =>
      have hackno : channel.inbound.feedback.ackno =
          some (SeqNo.ofIndex channel.inbound.confirmed channel.outbound.initial) := by
        rw [Inbound.feedback, hinitial, channel.inbound.confirmed_of_some hinitial,
          hsound.takes.initial_eq known hinitial]
        rfl
      refine channel.outbound.receive_of_ackno _ _ hready.unfailed hackno hle ?_ (by omega)
      simp only [SeqNo.lap]
      omega

theorem answer (hready : channel.Ready) (hconfirmed : 0 < channel.inbound.confirmed) :
    channel.answer.Ready := by
  have hreceive := hready.receive_feedback hconfirmed
  have hinput : (channel.outbound.receive channel.inbound.feedback).input =
      channel.outbound.input := by rw [hreceive, Outbound.input_acknowledge]
  have hsettles := hready.fit.sound.sends.settles_receive channel.inbound.feedback
  -- the answer is on its way for a moment
  have hfit := hready.fit.transmit channel.flights
    (channel.reports ++ [⟨channel.inbound.initial.map fun _ => channel.inbound.received,
      channel.inbound.feedback⟩]) (fun _ hmem => .inl hmem)
    (fun _ hmem => (List.mem_append.mp hmem).imp_right List.mem_singleton.mp)
  have hanswered := hfit.acknowledge _ (List.mem_append_right _ (List.mem_singleton_self _)) (by
    intro ack hack
    have hinFlight := hready.fit.sound.inFlight_le
    have hacked := hready.fit.sound.acked
    obtain ⟨known, hknown, rfl⟩ := Option.map_eq_some_iff.mp hack
    rw [channel.inbound.confirmed_of_some hknown] at hacked
    simp only [SeqNo.lap]
    omega)
  refine ⟨hanswered.transmit channel.flights channel.reports (fun _ hmem => .inl hmem)
    (fun _ hmem => .inl (List.mem_append_left _ hmem)), ?_, ?_, hready.unfailed, hready.room, ?_,
    hready.index⟩
  · rw [Channel.answer, hinput]
    exact hready.closed
  · rw [Channel.answer, hinput]
    exact hready.whole
  · rw [Channel.answer, hsettles.payloadLimit_eq]
    exact hready.limit

end Ready

end UserTcp.Channel
