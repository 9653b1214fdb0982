import UserTcp.Proofs.Connection.Silence
import UserTcp.Proofs.Outbound.Repeats

namespace UserTcp.Connection

variable {connection : Connection}

-- How many chunks an event sends again.
def repeated : Event → List Segment → Nat
  | .elapse _, segments => segments.countP fun segment => decide (0 < segment.chunk.span)
  | _, _ => 0

-- A connection, all that it has sent, and how many chunks it has sent again since an
-- acknowledgment last covered one that was not acknowledged before.
structure History where
  connection : Connection
  sent : List Segment
  repeats : Nat

namespace History

def ofSettings (id : Nat) (settings : Settings) : History where
  connection := Connection.ofSettings id settings
  sent := []
  repeats := 0

def after (history : History) (event : Event) : History :=
  let stepped := history.connection.step event
  { connection := stepped.1
    sent := history.sent ++ stepped.2
    repeats :=
      if history.connection.outbound.base < stepped.1.outbound.base then 0
      else history.repeats + repeated event stepped.2 }

def afterAll (history : History) (events : List Event) : History :=
  events.foldl after history

end History

-- The connection keeps the count of what it has sent again.
def Counts (before after : Connection) (again : Nat) : Prop :=
  after.outbound.base = before.outbound.base ∧
      after.outbound.retransmissions = before.outbound.retransmissions + again ∨
    before.outbound.base < after.outbound.base ∧ after.outbound.retransmissions = 0

theorem base_send (connection : Connection) :
    connection.send.1.outbound.base = connection.outbound.base := by
  rcases connection.outbound_send with hsame | hsent
  · rw [hsame]
  · rw [hsent, Outbound.base_send]

theorem retransmissions_send (connection : Connection) :
    connection.send.1.outbound.retransmissions = connection.outbound.retransmissions := by
  rcases connection.outbound_send with hsame | hsent
  · rw [hsame]
  · rw [hsent, Outbound.retransmissions_send]

theorem elapse_of_spent (time : Millis) (hticks : connection.Ticks time)
    (hcount : connection.settings.retransmissionLimit <
      (connection.outbound.elapse time).1.retransmissions) :
    connection.elapse time = ((connection.elapsing time).abort,
      (connection.outbound.elapse time).2.toList.map (connection.elapsing time).segment ++
        [(connection.elapsing time).resetSegment]) := by
  rw [elapse_of_ticks hticks, wait, if_pos hcount]
  rfl

theorem span_resetSegment (connection : Connection) :
    connection.resetSegment.chunk.span = 0 := rfl

-- A chunk that goes out again takes up sequence numbers, so it can be told from a reset.
theorem retransmissions_elapse (hbalanced : connection.outbound.Balanced) (time : Millis)
    (next : Connection) :
    (connection.outbound.elapse time).1.retransmissions = connection.outbound.retransmissions +
      ((connection.outbound.elapse time).2.toList.map next.segment).countP fun segment =>
        decide (0 < segment.chunk.span) := by
  rcases connection.outbound.elapse_cases time with
    ⟨hnone, hcount⟩ | ⟨oldest, hhead, hsome, hcount⟩
  · rw [hnone, hcount]
    rfl
  · have hspan : 0 < (next.segment oldest.chunk).chunk.span :=
      (hbalanced.tiles.mem oldest (List.mem_of_head? hhead)).2.1
    rw [hsome, hcount, Option.toList_some, List.map_singleton, List.countP_singleton,
      decide_eq_true hspan, if_pos rfl]

theorem counts_elapse (hbalanced : connection.outbound.Balanced) (time : Millis) :
    Counts connection (connection.elapse time).1
      (repeated (.elapse time) (connection.elapse time).2) := by
  refine .inl ?_
  by_cases hticks : connection.Ticks time
  · have hcount := retransmissions_elapse hbalanced time (connection.elapsing time)
    by_cases hpatient : (connection.outbound.elapse time).1.retransmissions ≤
        connection.settings.retransmissionLimit
    · rw [connection.elapse_of_patient time hticks hpatient]
      exact ⟨connection.outbound.base_elapse time, hcount⟩
    · rw [elapse_of_spent time hticks (Nat.lt_of_not_le hpatient)]
      refine ⟨connection.outbound.base_elapse time, ?_⟩
      rw [repeated, List.countP_append, List.countP_singleton, span_resetSegment]
      exact hcount
  · rw [elapse_of_not_ticks hticks]
    exact ⟨rfl, rfl⟩

theorem counts_step (hbalanced : connection.outbound.Balanced) (event : Event) :
    Counts connection (connection.step event).1 (repeated event (connection.step event).2) := by
  cases event with
  | send => exact .inl ⟨connection.base_send, connection.retransmissions_send⟩
  | receive segment =>
      rcases connection.receive_cases segment with hsame | hbroken | hanswered
      · rw [step, hsame]
        exact .inl ⟨rfl, rfl⟩
      · rw [step, hbroken]
        exact hbalanced.counted_receive segment.feedback
      · rw [step, hanswered, Counts, base_send, retransmissions_send, outbound_noteClose]
        exact hbalanced.counted_receive segment.feedback
  | elapse time => exact counts_elapse hbalanced time
  | outgoing op hop => exact .inl ⟨rfl, rfl⟩
  | incoming op hop => exact .inl ⟨rfl, rfl⟩

end UserTcp.Connection
