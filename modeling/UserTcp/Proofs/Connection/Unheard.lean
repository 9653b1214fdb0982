import UserTcp.Proofs.Connection.Surrender
import UserTcp.Proofs.Connection.Wakeful

namespace UserTcp

-- A segment that breaks whatever connection it comes to: a reset, or one that acknowledges nothing
-- and leaves no room for anything.
def Segment.breaks (segment : Segment) : Bool :=
  segment.rst || (segment.feedback.ackno.isNone && decide (segment.feedback.window = 0))

namespace Connection

variable {connection : Connection}

theorem failed_feed (connection : Connection) (segment : Segment) :
    (connection.feed segment).failed = (segment.breaks || connection.failed) := by
  rw [failed, feed, Outbound.failed_receive, Inbound.failed_receive, Segment.breaks, Segment.rst,
    failed]
  cases segment.chunk.rst <;> cases segment.feedback.rst <;>
    cases connection.outbound.input.failed <;> cases connection.inbound.stream.failed <;> simp

-- Whoever has something fresh to send answers with that.
theorem receive_of_fresh (segment : Segment) (hactive : connection.active = .ok true)
    (hfed : (connection.feed segment).failed = false) {chunk : Chunk} {rest : List Chunk}
    (hfresh : (connection.feed segment).outbound.send.2 = chunk :: rest) :
    (connection.receive segment).2 =
      (connection.feed segment).noteClose.sending.segment chunk ::
        rest.map (connection.feed segment).noteClose.sending.segment := by
  rw [← outbound_noteClose] at hfresh
  rw [receive_of_active segment hactive, heed,
    if_neg (by rw [hfed]; exact Bool.false_ne_true)]
  rcases (connection.feed segment).noteClose.send_cases with
    ⟨hbroken, -⟩ | ⟨-, ⟨hnil, -⟩ | ⟨-, hsend⟩⟩
  · rw [failed_noteClose, hfed] at hbroken
    cases hbroken
  · rw [hfresh] at hnil
    cases hnil
  · rw [hsend, hfresh]
    rfl

-- As long as nothing is written, no segment has a payload.
theorem payload_eq_nil_of_emits (hsends : connection.outbound.Sends []) {segments : List Segment}
    (hemits : connection.Emits segments) : ∀ segment ∈ segments, segment.chunk.payload = [] := by
  intro segment hmem
  rcases hemits.chunk segment hmem with hspan | ⟨flight, hflight, hchunk⟩
  · exact (segment.chunk.empty_of_span (Nat.not_lt.mpr (Nat.le_of_eq hspan))).1
  · have hle := (hsends.placed flight hflight).payload_le
    rw [← hchunk, ← List.length_eq_zero_iff]
    rw [List.length_nil] at hle
    omega

-- A connection that has sent nothing, has nothing to send and is not broken. Its clock can show the
-- end of the lingering.
structure Unheard (connection : Connection) : Prop where
  fits : connection.DeadlineFits
  whole : connection.failed = false
  sends : connection.outbound.Sends []
  balanced : connection.outbound.Balanced
  unsent : connection.outbound.synSent = false

theorem unheard_ofSettings (id : Nat) {settings : Settings} (hfits : settings.LingerFits) :
    (ofSettings id settings).Unheard where
  fits := (deadlineFits_ofSettings id settings).mpr hfits
  whole := rfl
  sends := Outbound.sends_ofInput _ _ _ _
  balanced := Outbound.balanced_ofInput _ _ _ _
  unsent := rfl

namespace Unheard

theorem finSent_eq (hunheard : connection.Unheard) : connection.outbound.finSent = false :=
  (hunheard.sends.unsent hunheard.unsent).2

theorem active (hunheard : connection.Unheard) : connection.active = .ok true := by
  refine connection.active_of_unfinished hunheard.whole ?_ hunheard.fits
  rw [Outbound.finished, hunheard.finSent_eq]
  rfl

theorem flights_eq (hunheard : connection.Unheard) : connection.outbound.flights = [] := by
  have hspans := hunheard.balanced.inFlight_eq
  rw [hunheard.balanced.unsent hunheard.unsent] at hspans
  cases hflights : connection.outbound.flights with
  | nil => rfl
  | cons oldest rest =>
      -- every flight takes up a sequence number
      have hmem : oldest ∈ connection.outbound.flights := by
        rw [hflights]
        exact List.mem_cons_self
      have hspan := (hunheard.balanced.tiles.mem oldest hmem).2.1
      rw [hflights, List.map_cons, Outbound.spans_cons] at hspans
      omega

-- There is no alarm that could be due.
theorem elapse (hunheard : connection.Unheard) (time : Millis) :
    (connection.elapse time).1.Unheard ∧ (connection.elapse time).2 = [] := by
  have hflights := hunheard.flights_eq
  have hsettles := hunheard.sends.settles_elapse time
  by_cases hticks : connection.Ticks time
  · rcases connection.outbound.elapse_cases time with ⟨hnone, hcount⟩ | ⟨oldest, hhead, -⟩
    · rw [hunheard.balanced.settled hflights] at hcount
      rw [connection.elapse_of_patient time hticks (by rw [hcount]; exact Nat.zero_le _), hnone]
      exact ⟨⟨hunheard.fits, (connection.failed_elapsing time).trans hunheard.whole,
        hunheard.sends.settle hsettles, hunheard.balanced.elapse time,
        hsettles.synSent_eq.trans hunheard.unsent⟩, rfl⟩
    · rw [hflights] at hhead
      cases hhead
  · rw [elapse_of_not_ticks hticks]
    exact ⟨hunheard, rfl⟩

theorem incoming (hunheard : connection.Unheard) (op : Pipe.Op) (hop : op.breaks = false) :
    (connection.mapIncoming fun pipe => (pipe.apply op).2).Unheard where
  fits := hunheard.fits
  whole := by
    obtain ⟨houtbound, hinbound⟩ := connection.failed_eq_false.mp hunheard.whole
    exact (failed_eq_false _).mpr
      ⟨houtbound, (connection.inbound.stream.failed_apply op hop).trans hinbound⟩
  sends := hunheard.sends
  balanced := hunheard.balanced
  unsent := hunheard.unsent

theorem receive_of_breaks (hunheard : connection.Unheard) {segment : Segment}
    (hbreaks : segment.breaks = true) :
    (connection.receive segment).1.failed = true ∧ (connection.receive segment).2 = [] := by
  have hfailed : (connection.feed segment).failed = true := by
    rw [connection.failed_feed, hbreaks, Bool.true_or]
  rw [receive_of_active segment hunheard.active, heed, if_pos hfailed]
  exact ⟨hfailed, rfl⟩

-- Everything else is answered with the SYN of this side, be it a SYN itself or not.
theorem receive_opens (hunheard : connection.Unheard) {segment : Segment}
    (hbreaks : segment.breaks = false) :
    ∃ opening rest, (connection.receive segment).2 = opening :: rest ∧
      opening.chunk.syn = true ∧ opening.rst = false := by
  have hfed : (connection.feed segment).failed = false := by
    rw [connection.failed_feed, hbreaks, hunheard.whole]
    rfl
  have hsettles := hunheard.sends.settles_receive segment.feedback
  have hnone : (connection.feed segment).outbound.inFlight = 0 := by
    have hle := hsettles.inFlight_le
    rw [hunheard.balanced.unsent hunheard.unsent] at hle
    exact Nat.le_zero.mp hle
  obtain ⟨opening, rest, hfresh, hsyn, hrst⟩ :=
    Outbound.send_of_unsent (hsettles.synSent_eq.trans hunheard.unsent) hnone
      (hsettles.finSent_eq.trans hunheard.finSent_eq)
  obtain ⟨houtbound, hinbound⟩ := (connection.feed segment).failed_eq_false.mp hfed
  rw [← inbound_noteClose] at hinbound
  exact ⟨_, _, receive_of_fresh segment hunheard.active hfed hfresh, hsyn,
    Bool.or_eq_false_iff.mpr ⟨hrst.trans houtbound, hinbound⟩⟩

end Unheard

theorem run_of_failed (hfailed : connection.failed = true) (events : List Event) :
    (connection.run events).1.failed = true ∧ (connection.run events).2 = [] := by
  induction events generalizing connection with
  | nil => exact ⟨hfailed, rfl⟩
  | cons event rest ih =>
      have hstill : (connection.step event).1.failed = true := by
        by_contra hwhole
        rw [whole_of_step event (eq_false_of_ne_true hwhole)] at hfailed
        cases hfailed
      obtain ⟨hbroken, hsilent⟩ := ih hstill
      refine ⟨hbroken, ?_⟩
      rw [run, (step_of_failed hfailed event).1, hsilent]
      rfl

end Connection

end UserTcp
