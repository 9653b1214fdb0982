import UserTcp.Proofs.Connection.Answers
import UserTcp.Proofs.Outbound.Sated

namespace UserTcp.Connection

variable {connection : Connection} {limit : Nat}

-- A connection with a sender that goes by its stream, and puts some bytes of it into a chunk but
-- not more than so many.
structure Able (connection : Connection) (limit : Nat) : Prop where
  portioned : connection.outbound.Portioned limit
  limit_pos : 0 < connection.outbound.payloadLimit
  sends : ∃ written, connection.outbound.Sends written

-- A connection that has nothing to do before something comes or the alarm is due, unless it is
-- broken.
structure Wakeful (connection : Connection) (limit : Nat) : Prop extends Able connection limit where
  sated : connection.failed = false → connection.outbound.Sated

theorem sends_send {written : List UInt8} (hsends : connection.outbound.Sends written) :
    connection.send.1.outbound.Sends written := by
  rcases connection.outbound_send with hsame | hsent
  · rw [hsame]
    exact hsends
  · rw [hsent]
    exact hsends.send

theorem sends_receive {written : List UInt8} (hsends : connection.outbound.Sends written)
    (segment : Segment) : (connection.receive segment).1.outbound.Sends written := by
  have hfed : (connection.feed segment).outbound.Sends written :=
    hsends.settle (hsends.settles_receive segment.feedback)
  rcases connection.receive_cases segment with hsame | hbroken | hanswered
  · rw [hsame]
    exact hsends
  · rw [hbroken]
    exact hfed
  · rw [hanswered]
    refine sends_send ?_
    rw [outbound_noteClose]
    exact hfed

theorem sends_step {written : List UInt8} (hsends : connection.outbound.Sends written)
    (event : Event) : ∃ more, (connection.step event).1.outbound.Sends more := by
  cases event with
  | send => exact ⟨written, sends_send hsends⟩
  | receive segment => exact ⟨written, sends_receive hsends segment⟩
  | elapse time => exact ⟨written, hsends.settle (connection.settles_elapse hsends time)⟩
  | outgoing op hop => exact ⟨_, hsends.apply op hop⟩
  | incoming op hop => exact ⟨written, hsends⟩

theorem Able.step (hable : connection.Able limit) (event : Event) :
    (connection.step event).1.Able limit where
  portioned := (portioned_step hable.portioned event).1
  limit_pos :=
    (connection.outbound_step_keeps (fun outbound => outbound.Balanced ∧ 0 < outbound.payloadLimit)
      (fun _ event hbefore => ⟨Outbound.balanced_after hbefore.1 event, by
        rw [Outbound.payloadLimit_after hbefore.1 event]
        exact hbefore.2⟩) event ⟨hable.portioned.toBalanced, hable.limit_pos⟩).2
  sends := hable.sends.elim fun _ hsends => sends_step hsends event

theorem Able.wakeful_send (hable : connection.Able limit) : connection.send.1.Wakeful limit where
  toAble := hable.step .send
  sated := by
    intro hwhole
    rw [outbound_send_of_whole (connection.failed_send.symm.trans hwhole)]
    exact connection.outbound.sated_send hable.limit_pos

theorem wakeful_ofSettings (id : Nat) (settings : Settings) :
    (ofSettings id settings).Wakeful settings.payloadLimit where
  portioned := Outbound.portioned_ofInput _ _ _ (Nat.le_refl _)
  limit_pos := settings.payloadLimit_pos
  sends := ⟨[], Outbound.sends_ofInput _ _ _ _⟩
  sated := fun _ => .inr (.inr ⟨rfl, rfl⟩)

-- Feedback may open the window or close it, but whoever listens to it looks at once for what else
-- there is to send.
theorem Wakeful.receive (hwakeful : connection.Wakeful limit) (segment : Segment) :
    (connection.receive segment).1.Wakeful limit where
  toAble := hwakeful.step (.receive segment)
  sated := by
    intro hwhole
    by_cases hactive : connection.active = .ok true
    · obtain ⟨hfed, hreceive⟩ := receive_of_whole segment hactive hwhole
      rw [hreceive, outbound_send_of_whole ((failed_noteClose _).trans hfed), outbound_noteClose]
      refine Outbound.sated_send _ ?_
      obtain ⟨written, hsends⟩ := hwakeful.sends
      have hlimit : (connection.feed segment).outbound.payloadLimit =
          connection.outbound.payloadLimit :=
        (hsends.settles_receive segment.feedback).payloadLimit_eq
      rw [hlimit]
      exact hwakeful.limit_pos
    · rw [receive_of_inactive segment hactive] at hwhole ⊢
      exact hwakeful.sated hwhole

theorem Wakeful.elapse (hwakeful : connection.Wakeful limit) (time : Millis) :
    (connection.elapse time).1.Wakeful limit where
  toAble := hwakeful.step (.elapse time)
  sated := by
    intro hwhole
    obtain ⟨written, hsends⟩ := hwakeful.sends
    have hsated := hwakeful.sated ((connection.continues_elapse hsends time).whole hwhole)
    have helapsed := hsated.elapse time
    by_cases hticks : connection.Ticks time
    · rw [elapse_of_ticks hticks, wait]
      split
      · exact helapsed
      · exact helapsed
    · rw [elapse_of_not_ticks hticks]
      exact hsated

theorem Wakeful.incoming (hwakeful : connection.Wakeful limit) (op : Pipe.Op)
    (hop : op.feeds = false) : (connection.step (.incoming op hop)).1.Wakeful limit where
  toAble := hwakeful.step (.incoming op hop)
  sated := fun hwhole => hwakeful.sated ((connection.continues_incoming op hop).whole hwhole)

-- A segment that carries a fresh chunk: one that starts where nothing had been sent before, holds
-- no more than so many bytes and ends within the window, counted from the first number in flight.
def Launches (before after : Connection) (limit : Nat) (segment : Segment) : Prop :=
  ∃ flight ∈ after.outbound.flights, segment.chunk = flight.chunk ∧
    before.outbound.next ≤ flight.start ∧ flight.chunk.payload.length ≤ limit ∧
    flight.stop ≤ after.outbound.base + after.outbound.usableWindow

theorem launches_send (hportioned : connection.outbound.Portioned limit) (segment : Segment)
    (hmem : segment ∈ connection.send.2) (hspan : 0 < segment.chunk.span) :
    connection.Launches connection.send.1 limit segment := by
  rcases connection.send_cases with ⟨-, hsend⟩ | ⟨-, ⟨-, -, hsend⟩ | ⟨-, hsend⟩⟩
  · rw [hsend] at hmem
    exact absurd hmem List.not_mem_nil
  · rw [hsend] at hmem
    rw [List.mem_singleton.mp hmem] at hspan
    exact absurd hspan (Nat.lt_irrefl 0)
  · rw [hsend] at hmem ⊢
    obtain ⟨chunk, hchunk, rfl⟩ := List.mem_map.mp hmem
    obtain ⟨flight, hflight, hcarried, hstart, hpayload, hstop⟩ :=
      hportioned.exists_flight_of_mem_send hchunk
    refine ⟨flight, hflight, hcarried, hstart, hpayload, ?_⟩
    have husable : connection.outbound.send.1.usableWindow = connection.outbound.usableWindow :=
      congrArg (fun window => max window.toNat 1) connection.outbound.window_send
    rw [sending, Outbound.base_send, husable]
    exact hstop

theorem launches_receive (hportioned : connection.outbound.Portioned limit) (segment : Segment)
    (answer : Segment) (hmem : answer ∈ (connection.receive segment).2)
    (hspan : 0 < answer.chunk.span) :
    connection.Launches (connection.receive segment).1 limit answer := by
  rcases connection.receive_cases segment with hsame | hbroken | hanswered
  · rw [hsame] at hmem
    exact absurd hmem List.not_mem_nil
  · rw [hbroken] at hmem
    exact absurd hmem List.not_mem_nil
  · have hfed : (connection.feed segment).outbound.Portioned limit :=
      hportioned.after (.receive segment.feedback)
    rw [← outbound_noteClose] at hfed
    rw [hanswered] at hmem ⊢
    -- what comes in does not move the next number to send
    have hnext : (connection.feed segment).noteClose.outbound.next = connection.outbound.next := by
      rw [outbound_noteClose]
      exact (Outbound.settles_receive hportioned.tiles hportioned.inFlight_le _).next_eq
    unfold Launches
    rw [← hnext]
    exact launches_send hfed answer hmem hspan

-- The alarm is heard: the oldest chunk goes out again before anything else.
theorem repeats_when_due (halert : connection.outbound.Alert) {time : Millis}
    (hticks : connection.Ticks time) (hdue : (connection.outbound.alarm.advance time).due = true) :
    ∃ again rest, (connection.elapse time).2 = again :: rest ∧
      connection.outbound.flights.head?.map Flight.chunk = some again.chunk := by
  obtain ⟨oldest, others, hflights⟩ :=
    List.exists_cons_of_ne_nil (halert.flights_ne_nil_of_due time hdue)
  have hagain : (connection.outbound.elapse time).2 = some oldest.chunk :=
    congrArg Prod.snd (Outbound.elapse_of_due hdue hflights)
  rw [elapse_of_ticks hticks, wait, hagain, hflights]
  split
  · exact ⟨_, _, rfl, rfl⟩
  · exact ⟨_, _, rfl, rfl⟩

-- What goes out again is the oldest chunk that waits.
theorem oldest_of_mem_elapse (connection : Connection) (time : Millis) (segment : Segment)
    (hmem : segment ∈ (connection.elapse time).2) (hspan : 0 < segment.chunk.span) :
    connection.outbound.flights.head?.map Flight.chunk = some segment.chunk := by
  have hagain : ∀ next : Connection,
      segment ∈ (connection.outbound.elapse time).2.toList.map next.segment →
        connection.outbound.flights.head?.map Flight.chunk = some segment.chunk := by
    intro next hmem
    obtain ⟨chunk, hchunk, rfl⟩ := List.mem_map.mp hmem
    exact connection.outbound.head?_flights_of_elapse time chunk (Option.mem_toList.mp hchunk)
  by_cases hticks : connection.Ticks time
  · rw [elapse_of_ticks hticks, wait] at hmem
    split at hmem
    · rcases List.mem_append.mp hmem with hmem | hmem
      · exact hagain _ hmem
      · rw [List.mem_singleton.mp hmem] at hspan
        exact absurd hspan (Nat.lt_irrefl 0)
    · exact hagain _ hmem
  · rw [elapse_of_not_ticks hticks] at hmem
    exact absurd hmem List.not_mem_nil

end UserTcp.Connection
