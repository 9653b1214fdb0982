import UserTcp.Proofs.Connection.Silence

namespace UserTcp.Connection

-- What can be done with a connection other than to hand it a segment. Both of its streams are open
-- to every operation.
inductive Action where
  | send
  | elapse (time : Millis)
  | outgoing (op : Pipe.Op)
  | incoming (op : Pipe.Op)

def perform (connection : Connection) : Action → Connection × List Segment
  | .send => connection.send
  | .elapse time => connection.elapse time
  | .outgoing op => (connection.mapOutgoing fun pipe => (pipe.apply op).2, [])
  | .incoming op => (connection.mapIncoming fun pipe => (pipe.apply op).2, [])

-- What can become of a connection when any segment may come to it.
inductive Reachable : Connection → Prop where
  | start (id : Nat) (settings : Settings) : Reachable (ofSettings id settings)
  | perform {connection : Connection} (action : Action) (hreachable : Reachable connection) :
      Reachable (connection.perform action).1
  | receive {connection : Connection} (segment : Segment) (hreachable : Reachable connection) :
      Reachable (connection.receive segment).1

variable {connection : Connection}

theorem Answered.perform (hanswered : connection.Answered) (action : Action) :
    (connection.perform action).1.Answered := by
  cases action with
  | send => exact hanswered.step .send
  | elapse time => exact hanswered.step (.elapse time)
  | outgoing op => exact fun hwhole => hanswered ((connection.continues_outgoing op).whole hwhole)
  | incoming op =>
      intro hwhole
      obtain ⟨houtgoing, hincoming⟩ := (failed_eq_false _).mp hwhole
      exact hanswered (connection.failed_eq_false.mpr
        ⟨houtgoing, connection.inbound.stream.failed_of_failed_apply op hincoming⟩)

theorem Reachable.answered (hreachable : connection.Reachable) : connection.Answered := by
  induction hreachable with
  | start id settings => exact answered_ofSettings id settings
  | perform action _ ih => exact ih.perform action
  | receive segment _ ih => exact ih.step (.receive segment)

-- All that goes out says what the connection has received up to then, be it fresh, sent again or
-- the acknowledgment alone.
theorem feedback_send (connection : Connection) :
    ∀ segment ∈ connection.send.2, segment.feedback = connection.inbound.feedback := by
  intro segment hmem
  rcases connection.send_cases with ⟨-, hsend⟩ | ⟨-, ⟨-, -, hsend⟩ | ⟨-, hsend⟩⟩
  · rw [hsend] at hmem
    exact absurd hmem List.not_mem_nil
  · rw [hsend] at hmem
    rw [List.mem_singleton.mp hmem]
    rfl
  · rw [hsend] at hmem
    obtain ⟨chunk, -, rfl⟩ := List.mem_map.mp hmem
    rfl

theorem feedback_receive (connection : Connection) (segment : Segment) :
    ∀ answer ∈ (connection.receive segment).2,
      answer.feedback = (connection.inbound.receive segment.chunk).feedback := by
  intro answer hmem
  rcases connection.receive_cases segment with hsame | hbroken | hanswered
  · rw [hsame] at hmem
    exact absurd hmem List.not_mem_nil
  · rw [hbroken] at hmem
    exact absurd hmem List.not_mem_nil
  · rw [hanswered] at hmem
    rw [feedback_send _ answer hmem, inbound_noteClose]
    rfl

theorem feedback_elapse (connection : Connection) (time : Millis) :
    ∀ segment ∈ (connection.elapse time).2,
      segment.feedback = connection.inbound.feedback := by
  intro segment hmem
  by_cases hticks : connection.Ticks time
  · -- the reset is made before the streams break
    simp only [elapse_of_ticks hticks, wait] at hmem
    split at hmem
    · rcases List.mem_append.mp hmem with hagain | hreset
      · obtain ⟨chunk, -, rfl⟩ := List.mem_map.mp hagain
        rfl
      · rw [List.mem_singleton.mp hreset]
        rfl
    · obtain ⟨chunk, -, rfl⟩ := List.mem_map.mp hmem
      rfl
  · rw [elapse_of_not_ticks hticks] at hmem
    exact absurd hmem List.not_mem_nil

-- Who owes nothing sends no acknowledgment alone.
theorem span_pos_send (howed : connection.ackOwed = false) :
    ∀ segment ∈ connection.send.2, 0 < segment.chunk.span := by
  intro segment hmem
  rcases connection.send_cases with ⟨-, hsend⟩ | ⟨-, ⟨-, howes, -⟩ | ⟨-, hsend⟩⟩
  · rw [hsend] at hmem
    exact absurd hmem List.not_mem_nil
  · rw [howed] at howes
    cases howes
  · rw [hsend] at hmem
    obtain ⟨chunk, hchunk, rfl⟩ := List.mem_map.mp hmem
    exact connection.outbound.span_pos_of_mem_fill _ chunk hchunk

theorem asksAck_iff (connection : Connection) (chunk : Chunk) :
    connection.asksAck chunk = true ↔ 0 < chunk.span ∨
      connection.inbound.feedback.ackno = some (chunk.seqno.advance 1) := by
  rw [asksAck, Bool.or_eq_true, decide_eq_true_eq, beq_iff_eq]

theorem ackOwed_feed (hanswered : connection.Answered) (hactive : connection.active = .ok true)
    (segment : Segment) :
    (connection.feed segment).ackOwed = connection.asksAck segment.chunk := by
  rw [feed, hanswered (failed_of_active hactive), Bool.false_or]

-- A segment that does not break the connection is answered in the same call.
theorem receive_of_whole (segment : Segment) (hactive : connection.active = .ok true)
    (hwhole : (connection.receive segment).1.failed = false) :
    (connection.feed segment).failed = false ∧
      connection.receive segment = (connection.feed segment).noteClose.send := by
  rw [receive_of_active segment hactive, heed] at hwhole ⊢
  split at hwhole
  · rename_i hfailed
    rw [hfailed] at hwhole
    cases hwhole
  · rename_i hfed
    exact ⟨eq_false_of_ne_true hfed, if_neg hfed⟩

-- Whatever was done with a connection before, it never leaves an acknowledgment for later. Who asks
-- for one, with sequence numbers or with an empty segment right before the next number wanted, gets
-- an answer in the same call, and nobody else gets one that is nothing but an acknowledgment. What
-- goes out reports what has been received by then, the segment that is answered included.
theorem answers_at_once (hreachable : connection.Reachable) :
    (connection.failed = false → connection.ackOwed = false) ∧
      (∀ segment, connection.active = .ok true → (connection.receive segment).1.failed = false →
        ((0 < segment.chunk.span ∨
            connection.inbound.feedback.ackno = some (segment.chunk.seqno.advance 1)) →
          (connection.receive segment).2 ≠ []) ∧
        (¬ (0 < segment.chunk.span ∨
            connection.inbound.feedback.ackno = some (segment.chunk.seqno.advance 1)) →
          ∀ answer ∈ (connection.receive segment).2, 0 < answer.chunk.span)) ∧
      (∀ segment, ∀ answer ∈ (connection.receive segment).2,
        answer.feedback = (connection.inbound.receive segment.chunk).feedback) ∧
      (∀ segment ∈ connection.send.2, segment.feedback = connection.inbound.feedback) ∧
      ∀ time, ∀ segment ∈ (connection.elapse time).2,
        segment.feedback = connection.inbound.feedback := by
  have hanswered := hreachable.answered
  refine ⟨hanswered, fun segment hactive hwhole => ?_, connection.feedback_receive,
    connection.feedback_send, connection.feedback_elapse⟩
  obtain ⟨hfed, hreceive⟩ := receive_of_whole segment hactive hwhole
  have howed : (connection.feed segment).noteClose.ackOwed = connection.asksAck segment.chunk := by
    rw [ackOwed_noteClose, ackOwed_feed hanswered hactive]
  rw [hreceive]
  constructor
  · intro hasks
    refine send_ne_nil ?_ (howed.trans ((connection.asksAck_iff segment.chunk).mpr hasks))
    rw [failed_noteClose, hfed]
  · intro hquiet
    refine span_pos_send (howed.trans (eq_false_of_ne_true fun hasks => ?_))
    exact hquiet ((connection.asksAck_iff segment.chunk).mp hasks)

-- The peer has opened, and asks later whether this side is still there. In between the application
-- has written and read, so the window is not what it was.
def openingSegment : Segment := ⟨⟨⟨100⟩, true, [5, 6], false, false⟩, ⟨some ⟨1⟩, 0, false⟩⟩

def probingSegment : Segment := ⟨⟨⟨102⟩, false, [], false, false⟩, ⟨some ⟨1⟩, 0, false⟩⟩

def probed : Connection :=
  ((((ofSettings 1 Settings.standard).perform .send).1.receive openingSegment).1.perform
    (.incoming (.pop 1))).1

theorem answers_at_once_probed :
    probed.Reachable ∧ probed.active = .ok true ∧ (probed.receive probingSegment).1.failed = false ∧
      probingSegment.chunk.span = 0 ∧
      probed.inbound.feedback.ackno = some (probingSegment.chunk.seqno.advance 1) ∧
      (probed.receive probingSegment).2 ≠ [] ∧
      ∀ answer ∈ (probed.receive probingSegment).2,
        answer.feedback = ⟨some ⟨103⟩, 63999, false⟩ := by
  have hreachable : probed.Reachable :=
    .perform _ (.receive openingSegment (.perform .send (.start 1 Settings.standard)))
  have hprobed : (probed.active, (probed.receive probingSegment).1.failed,
      probed.inbound.feedback.ackno, (probed.inbound.receive probingSegment.chunk).feedback) =
        (.ok true, false, some (probingSegment.chunk.seqno.advance 1),
          ⟨some ⟨103⟩, 63999, false⟩) := by cbv
  simp only [Prod.mk.injEq] at hprobed
  obtain ⟨hactive, hwhole, hackno, hfeedback⟩ := hprobed
  obtain ⟨-, hasked, hanswers, -⟩ := answers_at_once hreachable
  exact ⟨hreachable, hactive, hwhole, rfl, hackno,
    (hasked probingSegment hactive hwhole).1 (.inr hackno),
    fun answer hmem => (hanswers probingSegment answer hmem).trans hfeedback⟩

end UserTcp.Connection
