import UserTcp.Proofs.Connection.Continues

namespace UserTcp.Connection

theorem inbound_receive (connection : Connection) (segment : Segment) :
    (connection.receive segment).1.inbound = connection.inbound ∨
      (connection.receive segment).1.inbound = connection.inbound.receive segment.chunk := by
  rcases connection.receive_cases segment with hsame | hbroken | hanswered
  · rw [hsame]
    exact .inl rfl
  · rw [hbroken]
    exact .inr rfl
  · rw [hanswered, inbound_send, inbound_noteClose]
    exact .inr rfl

-- The connection after it has sent what it can.
def sending (connection : Connection) : Connection :=
  { connection with outbound := connection.outbound.send.1, ackOwed := false }

-- A broken connection sends nothing. Another one sends fresh chunks, or an acknowledgment
-- alone when it owes one and has nothing else.
theorem send_cases (connection : Connection) :
    connection.failed = true ∧ connection.send = (connection, []) ∨
      connection.failed = false ∧
        (connection.outbound.send.2 = [] ∧ connection.ackOwed = true ∧ connection.send =
            (connection.sending, [connection.sending.segment connection.sending.outbound.emptyChunk]) ∨
          (connection.outbound.send.2 ≠ [] ∨ connection.ackOwed = false) ∧ connection.send =
            (connection.sending, connection.outbound.send.2.map connection.sending.segment)) := by
  simp only [send]
  split
  · rename_i hfailed
    exact .inl ⟨hfailed, rfl⟩
  · rename_i hwhole
    refine .inr ⟨eq_false_of_ne_true hwhole, ?_⟩
    split
    · rename_i howes
      obtain ⟨hempty, howed⟩ := Bool.and_eq_true_iff.mp howes
      exact .inl ⟨List.isEmpty_iff.mp hempty, howed, rfl⟩
    · rename_i howes
      rw [Bool.and_eq_true, List.isEmpty_iff, not_and_or, Bool.not_eq_true] at howes
      exact .inr ⟨howes, rfl⟩

@[simp] theorem initial_send (connection : Connection) :
    connection.send.1.outbound.initial = connection.outbound.initial := by
  rcases connection.outbound_send with hsame | hsent
  · rw [hsame]
  · rw [hsent, Outbound.initial_send]

theorem times_send (connection : Connection) :
    connection.send.1.time = connection.time ∧ connection.send.1.heardAt = connection.heardAt := by
  rcases connection.send_cases with ⟨-, hsend⟩ | ⟨-, ⟨-, -, hsend⟩ | ⟨-, hsend⟩⟩
  all_goals
    rw [hsend]
    exact ⟨rfl, rfl⟩

theorem times_heed (connection : Connection) (segment : Segment) :
    (connection.heed segment).1.time = connection.time ∧
      (connection.heed segment).1.heardAt = connection.time := by
  have hnoted : (connection.feed segment).noteClose.time = connection.time ∧
      (connection.feed segment).noteClose.heardAt = connection.time := by
    unfold noteClose
    split <;> exact ⟨rfl, rfl⟩
  simp only [heed]
  split
  · exact ⟨rfl, rfl⟩
  · rw [(times_send _).1, (times_send _).2]
    exact hnoted

theorem times_wait (connection : Connection) (time : Millis) :
    (connection.wait time).1.time = connection.time ∧
      (connection.wait time).1.heardAt = connection.heardAt := by
  simp only [wait]
  split <;> exact ⟨rfl, rfl⟩

-- Segments that say what the connection has received, and reset nothing.
def Speaks (connection : Connection) (segments : List Segment) : Prop :=
  ∀ segment ∈ segments, segment.feedback = connection.inbound.feedback ∧ segment.rst = false

theorem speaks_map {connection : Connection} (chunks : List Chunk)
    (hwhole : connection.failed = false) (hclean : ∀ chunk ∈ chunks, chunk.rst = false) :
    connection.Speaks (chunks.map connection.segment) := by
  intro segment hmem
  obtain ⟨chunk, hchunk, rfl⟩ := List.mem_map.mp hmem
  exact ⟨rfl, Bool.or_eq_false_iff.mpr
    ⟨hclean chunk hchunk, (connection.failed_eq_false.mp hwhole).2⟩⟩

@[simp] theorem failed_sending (connection : Connection) :
    connection.sending.failed = connection.failed := by
  simp only [failed, sending, Outbound.failed_send]

theorem failed_send (connection : Connection) : connection.send.1.failed = connection.failed := by
  rcases connection.send_cases with ⟨-, hsend⟩ | ⟨-, ⟨-, -, hsend⟩ | ⟨-, hsend⟩⟩ <;> rw [hsend]
  · exact connection.failed_sending
  · exact connection.failed_sending

theorem speaks_send {connection : Connection} (hwhole : connection.failed = false)
    (hunbroken : connection.outbound.Unbroken) : connection.send.1.Speaks connection.send.2 := by
  have hsending : connection.sending.failed = false := connection.failed_sending.trans hwhole
  have hinput := (connection.sending.failed_eq_false.mp hsending).1
  rcases connection.send_cases with ⟨hfailed, -⟩ | ⟨-, ⟨-, -, hsend⟩ | ⟨-, hsend⟩⟩
  · rw [hwhole] at hfailed
    cases hfailed
  · rw [hsend]
    refine speaks_map [_] hsending fun chunk hmem => ?_
    rw [List.mem_singleton.mp hmem]
    exact hinput
  · rw [hsend]
    refine speaks_map _ hsending fun chunk hmem => ?_
    rw [← Outbound.map_chunk_locate connection.outbound.next connection.outbound.send.2] at hmem
    obtain ⟨flight, hflight, rfl⟩ := List.mem_map.mp hmem
    refine hunbroken.send hinput flight ?_
    rw [Outbound.flights_send]
    exact List.mem_append_right _ hflight

@[simp] theorem settings_send (connection : Connection) :
    connection.send.1.settings = connection.settings := by
  simp only [send]
  split
  · rfl
  · split <;> rfl

@[simp] theorem settings_noteClose (connection : Connection) :
    connection.noteClose.settings = connection.settings := by
  unfold noteClose
  split <;> rfl

@[simp] theorem ackOwed_noteClose (connection : Connection) :
    connection.noteClose.ackOwed = connection.ackOwed := by
  unfold noteClose
  split <;> rfl

@[simp] theorem failed_noteClose (connection : Connection) :
    connection.noteClose.failed = connection.failed := by
  simp only [failed, outbound_noteClose, inbound_noteClose]

-- Who owes an acknowledgment sends something.
theorem send_ne_nil {connection : Connection} (hwhole : connection.failed = false)
    (howed : connection.ackOwed = true) : connection.send.2 ≠ [] := by
  rcases connection.send_cases with ⟨hfailed, -⟩ | ⟨-, ⟨-, -, hsend⟩ | ⟨hsome, hsend⟩⟩
  · rw [hwhole] at hfailed
    cases hfailed
  · rw [hsend]
    exact List.cons_ne_nil _ _
  · rw [hsend]
    rw [howed] at hsome
    exact fun hnone => hsome.elim (fun hne => hne (List.map_eq_nil_iff.mp hnone)) (by decide)

theorem outbound_send_of_whole {connection : Connection} (hwhole : connection.failed = false) :
    connection.send.1.outbound = connection.outbound.send.1 := by
  rcases connection.send_cases with ⟨hfailed, -⟩ | ⟨-, ⟨-, -, hsend⟩ | ⟨-, hsend⟩⟩
  · rw [hwhole] at hfailed
    cases hfailed
  · rw [hsend]
    rfl
  · rw [hsend]
    rfl

-- The connection after some time without a reason to give up.
def elapsing (connection : Connection) (time : Millis) : Connection :=
  { connection with
    time := connection.time + time
    outbound := (connection.outbound.elapse time).1 }

@[simp] theorem failed_elapsing (connection : Connection) (time : Millis) :
    (connection.elapsing time).failed = connection.failed := by
  rw [failed, elapsing, Outbound.input_elapse]
  rfl

-- What goes out again was kept as it went out first.
theorem speaks_elapsing {connection : Connection} (time : Millis)
    (hwhole : connection.failed = false) (hunbroken : connection.outbound.Unbroken)
    (again : List Flight) (hagain : ∀ flight ∈ again, flight ∈ connection.outbound.flights) :
    (connection.elapsing time).Speaks
      ((again.map Flight.chunk).map (connection.elapsing time).segment) := by
  refine speaks_map _ ((connection.failed_elapsing time).trans hwhole) fun chunk hmem => ?_
  obtain ⟨flight, hflight, rfl⟩ := List.mem_map.mp hmem
  exact hunbroken (connection.failed_eq_false.mp hwhole).1 flight (hagain flight hflight)

theorem elapse_of_patient (connection : Connection) (time : Millis)
    (hticks : connection.Ticks time)
    (hcount : (connection.outbound.elapse time).1.retransmissions ≤
      connection.settings.retransmissionLimit) :
    connection.elapse time = (connection.elapsing time,
      (connection.outbound.elapse time).2.toList.map (connection.elapsing time).segment) := by
  rw [elapse_of_ticks hticks, wait, if_neg (Nat.not_lt.mpr hcount)]
  rfl

end UserTcp.Connection
