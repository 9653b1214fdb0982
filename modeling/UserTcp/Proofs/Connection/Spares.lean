import UserTcp.Proofs.Connection.Speaks

namespace UserTcp.Connection

-- A connection that has sent something new is not broken, and the new ends within the window
-- that it goes by.
def Spares (before after : Connection) : Prop :=
  after.outbound.next = before.outbound.next ∨
    after.failed = false ∧
      after.outbound.next ≤ after.outbound.base + after.outbound.usableWindow

@[simp] theorem window_send (connection : Connection) :
    connection.send.1.outbound.window = connection.outbound.window := by
  rcases connection.outbound_send with hsame | hsent
  · rw [hsame]
  · rw [hsent, Outbound.window_send]

@[simp] theorem window_elapse (connection : Connection) (time : Millis) :
    (connection.elapse time).1.outbound.window = connection.outbound.window := by
  have hwindow := connection.outbound.window_elapse time
  by_cases hticks : connection.Ticks time
  · rw [elapse_of_ticks hticks, wait]
    split
    · exact hwindow
    · exact hwindow
  · rw [elapse_of_not_ticks hticks]

theorem spares_send (connection : Connection)
    (hle : connection.outbound.inFlight ≤ connection.outbound.next) :
    Spares connection connection.send.1 := by
  cases hfailed : connection.failed with
  | true =>
      left
      rw [send, if_pos hfailed]
  | false =>
      have hsent := outbound_send_of_whole hfailed
      have hwhole := connection.failed_send.trans hfailed
      have hnext := connection.outbound.next_send_le hle
      have hgrows := connection.outbound.next_le_send
      have hsame : connection.send.1.outbound.usableWindow = connection.outbound.usableWindow :=
        congrArg (fun window => max window.toNat 1) connection.window_send
      unfold Spares
      rw [hsame, hsent, Outbound.base_send]
      by_cases hmore : connection.outbound.next < connection.outbound.send.1.next
      · exact .inr ⟨hwhole, by omega⟩
      · exact .inl (by omega)

theorem spares_elapse (connection : Connection) {written : List UInt8}
    (hsends : connection.outbound.Sends written) (time : Millis) :
    Spares connection (connection.elapse time).1 :=
  .inl (connection.settles_elapse hsends time).next_eq

theorem spares_receive (connection : Connection) {written : List UInt8}
    (hsends : connection.outbound.Sends written) (segment : Segment) :
    Spares connection (connection.receive segment).1 := by
  have hsettles := hsends.settles_receive segment.feedback
  have hnext : (connection.feed segment).outbound.next = connection.outbound.next :=
    hsettles.next_eq
  rcases connection.receive_cases segment with hsame | hbroken | hanswered
  · rw [hsame]
    exact .inl rfl
  · rw [hbroken]
    exact .inl hnext
  · have hspares := spares_send (connection.feed segment).noteClose (by
      rw [outbound_noteClose, hnext]
      exact Nat.le_trans hsettles.inFlight_le hsends.inFlight_le)
    rw [hanswered]
    unfold Spares at hspares ⊢
    rw [outbound_noteClose, hnext] at hspares
    exact hspares

-- Whoever is neither broken nor finished listens to every segment, as long as the clock can show
-- the end of the lingering.
theorem active_of_unfinished (connection : Connection) (hwhole : connection.failed = false)
    (hopen : connection.outbound.finished = false) (hfits : connection.DeadlineFits) :
    connection.active = .ok true := by
  refine active_eq_ok_iff.mpr ⟨_, lingering_eq_ok_iff.mpr ⟨hfits, rfl⟩, ?_⟩
  rw [hwhole, hopen]
  rfl

-- The window of a segment counts at once.
theorem window_receive (connection : Connection) (segment : Segment)
    (hactive : connection.active = .ok true) :
    (connection.receive segment).1.outbound.window = segment.feedback.window := by
  rw [receive_of_active segment hactive, heed]
  split
  · exact connection.outbound.window_receive segment.feedback
  · rw [window_send, outbound_noteClose]
    exact connection.outbound.window_receive segment.feedback

theorem unfinished_of_receive (connection : Connection) {written : List UInt8}
    (hsends : connection.outbound.Sends written) (segment : Segment)
    (hwhole : (connection.receive segment).1.failed = false)
    (hopen : (connection.receive segment).1.outbound.finished = false) :
    connection.failed = false ∧ connection.outbound.finished = false := by
  have hfed : (connection.feed segment).failed = false →
      (connection.feed segment).outbound.finished = false →
        connection.failed = false ∧ connection.outbound.finished = false := fun hwhole hopen =>
    ⟨connection.failed_of_failed_feed segment hsends hwhole,
      (hsends.settles_receive segment.feedback).persists.unfinished hopen⟩
  rcases connection.receive_cases segment with hsame | hbroken | hanswered
  · rw [hsame] at hwhole hopen
    exact ⟨hwhole, hopen⟩
  · rw [hbroken] at hwhole hopen
    exact hfed hwhole hopen
  · rw [hanswered] at hwhole hopen
    have hcontinues := (connection.feed segment).noteClose.continues_send
    have hnoted := hcontinues.whole hwhole
    have hstill := hcontinues.outbound.unfinished hopen
    rw [outbound_noteClose] at hstill
    rw [failed_eq_false, outbound_noteClose, inbound_noteClose, ← failed_eq_false] at hnoted
    exact hfed hnoted hstill

end UserTcp.Connection
