import UserTcp.Proofs.Connection.Active
import UserTcp.Proofs.Outbound.Settles

namespace UserTcp.Connection

-- Segments as a connection sends them: each carries a chunk that waits for its
-- acknowledgment or an empty one, and the acknowledgment of the moment.
structure Emits (connection : Connection) (segments : List Segment) : Prop where
  chunk : ∀ segment ∈ segments, segment.chunk.span = 0 ∨
    ∃ flight ∈ connection.outbound.flights, flight.chunk = segment.chunk
  ackno : ∀ segment ∈ segments, segment.feedback.ackno = connection.inbound.feedback.ackno
  rst : ∀ segment ∈ segments, segment.feedback.rst = true → connection.inbound.stream.failed = true

theorem emits_nil (connection : Connection) : connection.Emits [] where
  chunk := fun _ hmem => absurd hmem List.not_mem_nil
  ackno := fun _ hmem => absurd hmem List.not_mem_nil
  rst := fun _ hmem => absurd hmem List.not_mem_nil

theorem emits_map (connection : Connection) (chunks : List Chunk)
    (hchunks : ∀ chunk ∈ chunks, chunk.span = 0 ∨
      ∃ flight ∈ connection.outbound.flights, flight.chunk = chunk) :
    connection.Emits (chunks.map connection.segment) where
  chunk := by
    intro segment hmem
    obtain ⟨chunk, hchunk, rfl⟩ := List.mem_map.mp hmem
    exact hchunks chunk hchunk
  ackno := by
    intro segment hmem
    obtain ⟨chunk, -, rfl⟩ := List.mem_map.mp hmem
    rfl
  rst := by
    intro segment hmem hrst
    obtain ⟨chunk, -, rfl⟩ := List.mem_map.mp hmem
    exact hrst

@[simp] theorem inbound_send (connection : Connection) :
    connection.send.1.inbound = connection.inbound := by
  simp only [send]
  split
  · rfl
  · split <;> rfl

theorem outbound_send (connection : Connection) :
    connection.send.1.outbound = connection.outbound ∨
      connection.send.1.outbound = connection.outbound.send.1 := by
  simp only [send]
  split
  · exact .inl rfl
  · split <;> exact .inr rfl

theorem emits_send (connection : Connection) : connection.send.1.Emits connection.send.2 := by
  simp only [send]
  split
  · exact emits_nil connection
  · split
    · refine emits_map _ [_] fun chunk hmem => .inl ?_
      rw [List.mem_singleton.mp hmem]
      rfl
    · refine emits_map _ _ fun chunk hmem => .inr ?_
      have hflights := connection.outbound.flights_fill connection.outbound.usableWindow
      rw [← Outbound.map_chunk_locate connection.outbound.next
        (connection.outbound.send).2] at hmem
      obtain ⟨flight, hflight, hchunk⟩ := List.mem_map.mp hmem
      refine ⟨flight, ?_, hchunk⟩
      change flight ∈ (connection.outbound.fill connection.outbound.usableWindow).1.flights
      rw [hflights]
      exact List.mem_append_right _ hflight

@[simp] theorem inbound_noteClose (connection : Connection) :
    connection.noteClose.inbound = connection.inbound := by
  unfold noteClose
  split <;> rfl

@[simp] theorem outbound_noteClose (connection : Connection) :
    connection.noteClose.outbound = connection.outbound := by
  unfold noteClose
  split <;> rfl

-- A segment is not looked at any more, or it breaks the connection, or it is answered.
theorem receive_cases (connection : Connection) (segment : Segment) :
    connection.receive segment = (connection, []) ∨
      connection.receive segment = (connection.feed segment, []) ∨
      connection.receive segment = (connection.feed segment).noteClose.send := by
  by_cases hactive : connection.active = .ok true
  · rw [receive_of_active segment hactive, heed]
    split
    · exact .inr (.inl rfl)
    · exact .inr (.inr rfl)
  · exact .inl (receive_of_inactive segment hactive)

theorem emits_receive (connection : Connection) (segment : Segment) :
    (connection.receive segment).1.Emits (connection.receive segment).2 := by
  rcases connection.receive_cases segment with hsame | hbroken | hanswered
  · rw [hsame]
    exact emits_nil connection
  · rw [hbroken]
    exact emits_nil (connection.feed segment)
  · rw [hanswered]
    exact emits_send (connection.feed segment).noteClose

theorem emits_abort {connection : Connection} {segments : List Segment}
    (hemits : connection.Emits segments) : connection.abort.Emits segments where
  chunk := hemits.chunk
  ackno := hemits.ackno
  rst := fun _ _ _ => rfl

theorem emits_append {connection : Connection} {first second : List Segment}
    (hfirst : connection.Emits first) (hsecond : connection.Emits second) :
    connection.Emits (first ++ second) where
  chunk := fun segment hmem =>
    (List.mem_append.mp hmem).elim (hfirst.chunk segment) (hsecond.chunk segment)
  ackno := fun segment hmem =>
    (List.mem_append.mp hmem).elim (hfirst.ackno segment) (hsecond.ackno segment)
  rst := fun segment hmem =>
    (List.mem_append.mp hmem).elim (hfirst.rst segment) (hsecond.rst segment)

-- When the alarm is due, the oldest chunk goes out once more, and behind it perhaps a reset.
theorem emits_elapse (connection : Connection) (time : Millis) :
    (connection.elapse time).1.Emits (connection.elapse time).2 := by
  have hagain : ∀ chunk ∈ (connection.outbound.elapse time).2.toList, chunk.span = 0 ∨
      ∃ flight ∈ (connection.outbound.elapse time).1.flights, flight.chunk = chunk := by
    intro chunk hmem
    have hhead := connection.outbound.head?_flights_of_elapse time chunk (Option.mem_toList.mp hmem)
    obtain ⟨flight, hflight, hchunk⟩ := Option.map_eq_some_iff.mp hhead
    refine .inr ⟨flight, ?_, hchunk⟩
    rw [Outbound.flights_elapse]
    exact List.mem_of_head? hflight
  by_cases hticks : connection.Ticks time
  · rw [elapse_of_ticks hticks, wait]
    split
    · refine emits_abort (emits_append (emits_map _ _ hagain) (emits_map _ [_] ?_))
      intro chunk hmem
      rw [List.mem_singleton.mp hmem]
      exact .inl rfl
    · exact emits_map _ _ hagain
  · rw [elapse_of_not_ticks hticks]
    exact emits_nil connection

theorem inbound_elapse (connection : Connection) (time : Millis) :
    (connection.elapse time).1.inbound = connection.inbound ∨
      (connection.elapse time).1.inbound = connection.inbound.mapStream Pipe.fail := by
  by_cases hticks : connection.Ticks time
  · rw [elapse_of_ticks hticks, wait]
    split
    · exact .inr rfl
    · exact .inl rfl
  · rw [elapse_of_not_ticks hticks]
    exact .inl rfl

theorem settles_elapse (connection : Connection) {written : List UInt8}
    (hsends : connection.outbound.Sends written) (time : Millis) :
    Outbound.Settles connection.outbound (connection.elapse time).1.outbound 0 := by
  have helapse := hsends.settles_elapse time
  by_cases hticks : connection.Ticks time
  · rw [elapse_of_ticks hticks, wait]
    split
    · exact helapse.failInput
    · exact helapse
  · rw [elapse_of_not_ticks hticks]
    exact Outbound.settles_of_flights hsends.tiles (.inl rfl) rfl rfl rfl rfl rfl rfl rfl

end UserTcp.Connection
