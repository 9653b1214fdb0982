import UserTcp.Proofs.NearestIndex
import UserTcp.Proofs.Outbound.Balanced

namespace UserTcp

theorem Alarm.due_advance_timeout (alarm : Alarm) (hrunning : alarm.running = true) :
    (alarm.advance alarm.timeout).due = true := by
  have hsum := Millis.toNat_addCapped alarm.elapsed alarm.timeout
  have hceiling := Millis.le_ceiling alarm.timeout
  have hdue : alarm.timeout ≤ alarm.elapsed.addCapped alarm.timeout := by
    rw [UInt64.le_iff_toNat_le, hsum]
    omega
  simp only [advance, due, hrunning, ↓reduceIte, Bool.true_and, decide_eq_true_eq]
  exact hdue

namespace Outbound

-- What an open window gets while there is something to send: the SYN, bytes of the input, or the
-- FIN behind the last of them.
theorem span_cut_pos (outbound : Outbound) (window : Nat) (hroom : outbound.inFlight < window)
    (hleft : outbound.input.buffer ≠ [] ∨ outbound.input.closed = true)
    (hlimit : 0 < outbound.payloadLimit) : 0 < (outbound.cut window).1.span := by
  rw [cut_eq]
  cases hsyn : outbound.synSent with
  | false => exact Chunk.span_pos_of_syn _ rfl
  | true =>
      cases hbuffer : outbound.input.buffer with
      | cons byte rest =>
          have htaking : 0 < outbound.taking window := by
            simp only [taking, Pipe.buffered, hsyn, hbuffer, List.length_cons, Bool.not_true,
              Bool.toNat_false]
            omega
          simp only [Chunk.span, List.length_take, List.length_cons]
          omega
      | nil =>
          have hclosed : outbound.input.closed = true := hleft.resolve_left (absurd hbuffer)
          have hdrained : (outbound.input.pop (outbound.taking window)).drained = true := by
            simp only [Pipe.drained, Pipe.pop, hclosed, hbuffer, List.drop_nil, List.isEmpty_nil,
              Bool.and_true]
          have hfin : 0 < window - outbound.inFlight - (!true).toNat := by
            rw [Bool.not_true, Bool.toNat_false]
            omega
          simp only [Chunk.span, List.take_nil, List.length_nil, hdrained, hfin, decide_true,
            Bool.and_true, Bool.toNat_true]
          omega

theorem send_of_finSent (outbound : Outbound) (hfin : outbound.finSent = true) :
    outbound.send = (outbound, []) := by
  rw [send, fill, if_neg (by simp [hfin])]

-- The SYN goes out whatever window there is, and before all else.
theorem send_of_unsent {outbound : Outbound} (hsyn : outbound.synSent = false)
    (hnone : outbound.inFlight = 0) (hfin : outbound.finSent = false) :
    ∃ opening rest, outbound.send.2 = opening :: rest ∧ opening.syn = true ∧
      opening.rst = outbound.input.failed := by
  have hroom : outbound.inFlight < outbound.usableWindow := by
    rw [hnone, usableWindow]
    omega
  have hcut : (outbound.cut outbound.usableWindow).1.syn = true := by
    rw [syn_cut, hsyn]
    rfl
  rw [send, fill, if_pos ⟨hroom, hfin⟩, if_pos (Chunk.span_pos_of_syn _ hcut)]
  exact ⟨_, _, rfl, hcut, rfl⟩

theorem flights_send (outbound : Outbound) :
    outbound.send.1.flights = outbound.flights ++ locate outbound.next outbound.send.2 :=
  flights_fill outbound outbound.usableWindow

theorem next_fill (outbound : Outbound) (window : Nat) :
    (outbound.fill window).1.next = outbound.next + spans (outbound.fill window).2 := by
  fun_induction Outbound.fill outbound window with
  | case1 outbound hroom fresh hspan rest ih =>
      have hrest : rest.1.next = _ := ih
      rw [hrest, spans_cons, ← Nat.add_assoc]
      rfl
  | case2 => rfl
  | case3 => rfl

@[simp] theorem initial_send (outbound : Outbound) :
    outbound.send.1.initial = outbound.initial :=
  outbound.initial_fill outbound.usableWindow

theorem next_send (outbound : Outbound) :
    outbound.send.1.next = outbound.next + spans outbound.send.2 :=
  outbound.next_fill outbound.usableWindow

-- A sender that is not finished has something to wait for as soon as it has sent.
theorem flights_send_ne_nil (outbound : Outbound) (hbalanced : outbound.Balanced)
    (hclosed : outbound.input.closed = true) (hlimit : 0 < outbound.payloadLimit)
    (hopen : outbound.finished = false) : outbound.send.1.flights ≠ [] := by
  rw [flights_send]
  cases hflights : outbound.flights with
  | cons oldest rest => exact List.cons_ne_nil _ _
  | nil =>
      have hnone := hbalanced.inFlight_eq
      rw [hflights, List.map_nil, spans_nil] at hnone
      have hfin : outbound.finSent = false := by
        simpa only [finished, hflights, List.isEmpty_nil, Bool.and_true] using hopen
      have hroom : outbound.inFlight < outbound.usableWindow := by
        rw [hnone, usableWindow]
        omega
      have hspan := outbound.span_cut_pos _ hroom (.inr hclosed) hlimit
      rw [send, fill, if_pos ⟨hroom, hfin⟩]
      simp only [if_pos hspan]
      exact List.cons_ne_nil _ _

-- When as much time has passed as the timeout asks for, the oldest flight goes out again.
theorem elapse_timeout (outbound : Outbound) (halert : outbound.Alert) {oldest : Flight}
    {rest : List Flight} (hflights : outbound.flights = oldest :: rest) :
    (outbound.elapse outbound.alarm.timeout).2 = some oldest.chunk := by
  have hrunning := halert.running_iff.mpr (hflights ▸ List.cons_ne_nil oldest rest)
  simp only [elapse, outbound.alarm.due_advance_timeout hrunning, ↓reduceIte]
  split
  · rename_i hempty
    rw [hflights] at hempty
    cases hempty
  · rename_i first others hfirst
    rw [hflights] at hfirst
    obtain ⟨rfl, -⟩ := List.cons.inj hfirst
    rfl

-- The chunks that go out when a sender sends what it can and then waits for its alarm.
def turn (outbound : Outbound) : Outbound × List Chunk :=
  let sent := outbound.send
  let again := sent.1.elapse sent.1.alarm.timeout
  (again.1, sent.2 ++ again.2.toList)

theorem flights_turn (outbound : Outbound) : outbound.turn.1.flights = outbound.send.1.flights :=
  flights_elapse _ _

theorem base_turn (outbound : Outbound) : outbound.turn.1.base = outbound.base :=
  (base_elapse _ _).trans (base_send outbound)

-- All of them wait for their acknowledgment.
theorem exists_flight_of_mem_turn (outbound : Outbound) (chunk : Chunk)
    (hmem : chunk ∈ outbound.turn.2) :
    ∃ flight ∈ outbound.turn.1.flights, flight.chunk = chunk := by
  rw [flights_turn]
  rcases List.mem_append.mp hmem with hfresh | hagain
  · rw [← map_chunk_locate outbound.next outbound.send.2] at hfresh
    obtain ⟨flight, hflight, hchunk⟩ := List.mem_map.mp hfresh
    rw [flights_send]
    exact ⟨flight, List.mem_append_right _ hflight, hchunk⟩
  · have hhead := head?_flights_of_elapse _ _ chunk (Option.mem_toList.mp hagain)
    obtain ⟨flight, hflight, hchunk⟩ := Option.map_eq_some_iff.mp hhead
    exact ⟨flight, List.mem_of_head? hflight, hchunk⟩

-- The last of them is the oldest flight, unless the sender is finished.
theorem turn_of_unfinished (outbound : Outbound) (hbalanced : outbound.Balanced)
    (hclosed : outbound.input.closed = true) (hlimit : 0 < outbound.payloadLimit)
    (hopen : outbound.finished = false) :
    ∃ oldest rest, outbound.turn.1.flights = oldest :: rest ∧
      outbound.turn.2 = outbound.send.2 ++ [oldest.chunk] := by
  have hne := outbound.flights_send_ne_nil hbalanced hclosed hlimit hopen
  obtain ⟨oldest, rest, hflights⟩ := List.exists_cons_of_ne_nil hne
  refine ⟨oldest, rest, outbound.flights_turn.trans hflights, ?_⟩
  rw [turn, outbound.send.1.elapse_timeout hbalanced.send.toAlert hflights]
  rfl

-- A finished sender has nothing to send and nothing to wait for.
theorem turn_of_finished (outbound : Outbound) (hbalanced : outbound.Balanced)
    (hfinished : outbound.finished = true) :
    outbound.turn.1.finished = true ∧ outbound.turn.2 = [] := by
  obtain ⟨hfin, hempty⟩ := Bool.and_eq_true_iff.mp hfinished
  have hagain : (outbound.elapse outbound.alarm.timeout).2 = none := by
    refine Option.eq_none_iff_forall_not_mem.mpr fun chunk hmem => ?_
    have hhead := outbound.head?_flights_of_elapse _ chunk hmem
    rw [List.isEmpty_iff.mp hempty] at hhead
    cases hhead
  rw [turn, outbound.send_of_finSent hfin]
  exact ⟨(settles_elapse hbalanced.tiles _).finished hfinished,
    congrArg ([] ++ ·.toList) hagain⟩

-- An acknowledgment of the oldest flight moves the first index in flight past it.
theorem stop_le_of_acknowledge (outbound : Outbound)
    (htiles : Tiles (outbound.next - outbound.inFlight) outbound.flights outbound.next)
    (hle : outbound.inFlight ≤ outbound.next) {oldest : Flight} {rest : List Flight}
    (hflights : outbound.flights = oldest :: rest) (ack : Nat) (hcovered : oldest.stop ≤ ack) :
    oldest.stop ≤ (outbound.acknowledge ack).next - (outbound.acknowledge ack).inFlight := by
  rw [hflights] at htiles
  obtain ⟨hstart, hspan, hrest⟩ := htiles
  have hrestle := hrest.le
  have hstop : oldest.stop = oldest.start + oldest.chunk.span := rfl
  have hforget : forget ack outbound.flights outbound.inFlight =
      forget ack rest (outbound.inFlight - oldest.chunk.span) := by
    rw [hflights, forget, if_pos hcovered]
  obtain ⟨gone, base, hgone, -, hbase, hlower, -⟩ :=
    tiles_forget ack rest (outbound.inFlight - oldest.chunk.span) oldest.stop outbound.next hrest
      (by omega)
  have hshorter : (forget ack rest (outbound.inFlight - oldest.chunk.span)).1.length <
      outbound.flights.length := by
    have hlen := congrArg List.length hgone
    rw [List.length_append] at hlen
    rw [hflights, List.length_cons]
    omega
  simp only [acknowledge, hforget, if_pos hshorter]
  omega

-- Feedback that acknowledges an index that was sent, and not too long ago, is understood.
theorem receive_of_ackno (outbound : Outbound) (feedback : Feedback) (ack : Nat)
    (hrst : feedback.rst = false)
    (hackno : feedback.ackno = some (SeqNo.ofIndex ack outbound.initial))
    (hle : ack ≤ outbound.next) (hbehind : outbound.next < ack + SeqNo.lap / 2)
    (hindex : outbound.next < SeqNo.indexLimit) :
    outbound.receive feedback = { outbound with window := feedback.window }.acknowledge ack := by
  have hnearest := SeqNo.nearestIndex_of_le ack outbound.next outbound.initial hle hbehind hindex
  simp only [receive, hrst, Bool.false_eq_true, ↓reduceIte, hackno, hnearest,
    if_neg (Nat.not_lt.mpr hle)]

-- Feedback that acknowledges nothing yet only tells the window.
theorem receive_of_silent (outbound : Outbound) (feedback : Feedback)
    (hrst : feedback.rst = false) (hackno : feedback.ackno = none) (hopen : feedback.window ≠ 0) :
    outbound.receive feedback = { outbound with window := feedback.window } := by
  simp only [receive, hrst, Bool.false_eq_true, ↓reduceIte, hackno, if_neg hopen]

theorem failed_receive (outbound : Outbound) (feedback : Feedback) :
    (outbound.receive feedback).input.failed =
      (feedback.rst || (feedback.ackno.isNone && decide (feedback.window = 0)) ||
        outbound.input.failed) := by
  cases hrst : feedback.rst with
  | true =>
      rw [receive, if_pos hrst]
      rfl
  | false =>
      simp only [receive, hrst, Bool.false_eq_true, ↓reduceIte, Bool.false_or]
      cases hackno : feedback.ackno with
      | none =>
          by_cases hshut : feedback.window = 0
          · simp only [hshut, ↓reduceIte, failInput, Pipe.fail, Option.isNone_none, decide_true,
              Bool.and_self, Bool.true_or]
          · simp only [hshut, ↓reduceIte, decide_false, Bool.and_false, Bool.false_or]
      | some ackno =>
          simp only [Option.isNone_some, Bool.false_and, Bool.false_or]
          split
          · rfl
          · rw [input_acknowledge]

-- An acknowledgment that does not cover the oldest flight changes nothing.
theorem acknowledge_of_lt (outbound : Outbound) {oldest : Flight}
    (hhead : outbound.flights.head? = some oldest) {ack : Nat} (hlt : ack < oldest.stop) :
    outbound.acknowledge ack = outbound := by
  obtain ⟨rest, hflights⟩ := List.head?_eq_some_iff.mp hhead
  have hforget : forget ack outbound.flights outbound.inFlight =
      (outbound.flights, outbound.inFlight) := by
    rw [hflights, forget, if_neg (Nat.not_le.mpr hlt)]
  simp only [acknowledge, hforget, Nat.lt_irrefl, ↓reduceIte]

@[simp] theorem retransmissions_send (outbound : Outbound) :
    outbound.send.1.retransmissions = outbound.retransmissions :=
  fill_keeps (fun after => after.retransmissions = outbound.retransmissions) _
    (fun _ hbefore _ _ _ => hbefore) outbound rfl

theorem head?_flights_send (outbound : Outbound) {oldest : Flight}
    (hhead : outbound.flights.head? = some oldest) :
    outbound.send.1.flights.head? = some oldest := by
  rw [flights_send, List.head?_append, hhead, Option.some_or]

-- Only the oldest flight begins at the first number without acknowledgment.
theorem Balanced.head?_of_start {outbound : Outbound} (hbalanced : outbound.Balanced)
    {flight : Flight} (hmem : flight ∈ outbound.flights) (hstart : flight.start ≤ outbound.base) :
    outbound.flights.head? = some flight := by
  have htiles := hbalanced.tiles
  cases hflights : outbound.flights with
  | nil =>
      rw [hflights] at hmem
      exact absurd hmem List.not_mem_nil
  | cons oldest rest =>
      rw [hflights] at hmem htiles
      obtain ⟨holdest, hspan, hrest⟩ := htiles
      rcases List.mem_cons.mp hmem with rfl | hlater
      · rfl
      · have hlower := (hrest.mem flight hlater).1
        have hstop : oldest.stop = oldest.start + oldest.chunk.span := rfl
        unfold base at hstart
        omega

end Outbound

end UserTcp
