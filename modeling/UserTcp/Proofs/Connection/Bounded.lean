import UserTcp.Proofs.Connection.Answers
import UserTcp.Proofs.Outbound.Bounded

namespace UserTcp

-- A segment that a connection with these settings can send to somebody with so much room.
structure Segment.Bounded (segment : Segment) (settings : Settings) (room : Nat) : Prop where
  payload_le : segment.chunk.payload.length ≤
    min settings.payloadLimit (min settings.capacity (max room 1))
  window_le : segment.feedback.window.toNat ≤ settings.capacity

namespace Connection

-- A connection that keeps to its settings and to the room of its peer.
structure Bounded (connection : Connection) (settings : Settings) (room : Nat) : Prop where
  outbound : connection.outbound.Bounded settings.payloadLimit settings.capacity room
  capacity_eq : connection.inbound.stream.capacity = settings.capacity

theorem bounded_ofSettings (id : Nat) (settings : Settings) (room : Nat) :
    (ofSettings id settings).Bounded settings room where
  outbound := Outbound.bounded_ofInput _ _ _ _ room
  capacity_eq := rfl

theorem emits_perform (connection : Connection) (action : Action) :
    (connection.perform action).1.Emits (connection.perform action).2 := by
  cases action with
  | send => exact connection.emits_send
  | elapse time => exact connection.emits_elapse time
  | outgoing op => exact emits_nil _
  | incoming op => exact emits_nil _

theorem feedback_perform (connection : Connection) (action : Action) :
    ∀ segment ∈ (connection.perform action).2,
      segment.feedback = connection.inbound.feedback := by
  cases action with
  | send => exact connection.feedback_send
  | elapse time => exact connection.feedback_elapse time
  | outgoing op => exact fun _ hmem => absurd hmem List.not_mem_nil
  | incoming op => exact fun _ hmem => absurd hmem List.not_mem_nil

namespace Bounded

variable {connection : Connection} {settings : Settings} {room : Nat}

-- What carries something waits for its acknowledgment.
theorem payload_le (hbounded : connection.Bounded settings room) {segments : List Segment}
    (hemits : connection.Emits segments) {segment : Segment} (hmem : segment ∈ segments) :
    segment.chunk.payload.length ≤
      min settings.payloadLimit (min settings.capacity (max room 1)) := by
  rcases hemits.chunk segment hmem with hspan | ⟨flight, hflight, hchunk⟩
  · rw [(segment.chunk.empty_of_span (Nat.not_lt.mpr (Nat.le_of_eq hspan))).1]
    exact Nat.zero_le _
  · rw [← hchunk]
    exact hbounded.outbound.payload_le_min hflight

protected theorem send (hbounded : connection.Bounded settings room) :
    connection.send.1.Bounded settings room where
  outbound := by
    rcases connection.outbound_send with hsame | hsent
    · rw [hsame]
      exact hbounded.outbound
    · rw [hsent]
      exact hbounded.outbound.send
  capacity_eq := by
    rw [inbound_send]
    exact hbounded.capacity_eq

protected theorem elapse (hbounded : connection.Bounded settings room) (time : Millis) :
    (connection.elapse time).1.Bounded settings room where
  outbound := by
    have helapsed := hbounded.outbound.elapse time
    by_cases hticks : connection.Ticks time
    · rw [elapse_of_ticks hticks, wait]
      split
      · exact helapsed.apply .fail
      · exact helapsed
    · rw [elapse_of_not_ticks hticks]
      exact hbounded.outbound
  capacity_eq := by
    rcases connection.inbound_elapse time with hsame | hfail
    · rw [hsame]
      exact hbounded.capacity_eq
    · rw [hfail]
      exact hbounded.capacity_eq

theorem perform (hbounded : connection.Bounded settings room) (action : Action) :
    (connection.perform action).1.Bounded settings room ∧
      ∀ segment ∈ (connection.perform action).2, segment.Bounded settings room := by
  have hafter : (connection.perform action).1.Bounded settings room := by
    cases action with
    | send => exact hbounded.send
    | elapse time => exact hbounded.elapse time
    | outgoing op => exact ⟨hbounded.outbound.apply op, hbounded.capacity_eq⟩
    | incoming op =>
        exact ⟨hbounded.outbound,
          (connection.inbound.stream.capacity_apply op).trans hbounded.capacity_eq⟩
  refine ⟨hafter, fun segment hmem =>
    ⟨hafter.payload_le (connection.emits_perform action) hmem, ?_⟩⟩
  rw [connection.feedback_perform action segment hmem, ← hbounded.capacity_eq]
  exact connection.inbound.window_feedback_le

theorem receive (hbounded : connection.Bounded settings room) {segment : Segment}
    (hwindow : segment.feedback.window.toNat ≤ room) :
    (connection.receive segment).1.Bounded settings room ∧
      ∀ answer ∈ (connection.receive segment).2, answer.Bounded settings room := by
  have hcapacity : (connection.inbound.receive segment.chunk).stream.capacity = settings.capacity :=
    (connection.inbound.capacity_receive segment.chunk).trans hbounded.capacity_eq
  have hfed : (connection.feed segment).Bounded settings room :=
    ⟨hbounded.outbound.receive segment.feedback hwindow, hcapacity⟩
  have hafter : (connection.receive segment).1.Bounded settings room := by
    rcases connection.receive_cases segment with hsame | hbroken | hanswered
    · rw [hsame]
      exact hbounded
    · rw [hbroken]
      exact hfed
    · rw [hanswered]
      refine Bounded.send ⟨?_, ?_⟩
      · rw [outbound_noteClose]
        exact hfed.outbound
      · rw [inbound_noteClose]
        exact hfed.capacity_eq
  refine ⟨hafter, fun answer hmem =>
    ⟨hafter.payload_le (connection.emits_receive segment) hmem, ?_⟩⟩
  rw [connection.feedback_receive segment answer hmem, ← hcapacity]
  exact Inbound.window_feedback_le _

end Bounded

end Connection

end UserTcp
