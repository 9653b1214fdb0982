import UserTcp.Link.Tap
import UserTcp.Proofs.Connection.Speaks
import UserTcp.Proofs.Pipe.Passes
import UserTcp.Proofs.Socket.Terminal
import Mathlib

namespace UserTcp

-- The bytes that chunks carry, one after another.
def payloads (chunks : List Chunk) : List UInt8 :=
  chunks.flatMap Chunk.payload

-- What a sender takes out of its input is what its fresh chunks carry.
theorem Outbound.passes_send (outbound : Outbound) :
    outbound.input.Passes outbound.send.1.input [] (payloads outbound.send.2) := by
  refine fill_keeps_sent (fun after sent => outbound.input.Passes after.input [] (payloads sent))
    outbound.usableWindow ?_ outbound [] (.refl _)
  intro before sent hbefore _ _ _
  rw [cut_eq, payloads, List.flatMap_append, List.flatMap_singleton]
  exact hbefore.trans (before.input.passes_pop _)

theorem Connection.passes_send (connection : Connection) :
    connection.outbound.input.Passes connection.send.1.outbound.input []
      (payloads (connection.send.2.map Segment.chunk)) := by
  have hpasses := connection.outbound.passes_send
  rcases connection.send_cases with ⟨-, hsend⟩ | ⟨-, ⟨hnone, -, hsend⟩ | ⟨-, hsend⟩⟩
  · rw [hsend]
    exact .refl _
  · rw [hnone] at hpasses
    rw [hsend]
    exact hpasses
  · have hchunks : (connection.outbound.send.2.map connection.sending.segment).map Segment.chunk =
        connection.outbound.send.2 := by
      rw [List.map_map]
      exact List.map_id _
    rw [hsend, hchunks]
    exact hpasses

section Socket

variable {link : Type} [Link link]

-- What a write does to the connection: the stream to the peer takes in what it accepts, and the
-- connection sends.
theorem Socket.connection_write (socket : Socket) (carrier : link) (bytes : List UInt8) :
    (socket.write carrier bytes).socket.connection =
      (socket.connection.mapOutgoing fun input => input.push bytes).send.1 := by
  have hpush := Terminal.push_take_writable socket.connection.outbound.input bytes
  simp only [write, send, emit, Connection.mapOutgoing, writable, hpush]

theorem Socket.eq_writable_of_write (socket : Socket) (carrier : link) (bytes : List UInt8)
    (count : Nat) (hcount : (socket.write carrier bytes).result = .ok count) :
    count = socket.writable bytes := by
  simp only [write, Except.map] at hcount
  split at hcount
  · cases hcount
  · cases hcount
    rfl

end Socket

namespace Terminal

variable {link : Type} [Link link]

theorem spoken_write (terminal : Terminal) (bytes : List UInt8) :
    terminal.spoken (.write bytes) =
      (terminal.socket.connection.mapOutgoing fun input => input.push bytes).send.2 := by
  simp only [spoken, events, Core.events, Connection.run, Connection.step, List.nil_append,
    List.append_nil]
  rfl

-- A write that succeeds returns how many of the bytes there is room for. While the stream is open
-- it queues just these, behind what is queued already, and what the window allows goes out from the
-- front in the same call. Once the stream is closed it queues nothing and still returns their
-- number.
theorem write_counts_room (terminal : Terminal) (carrier : link) (bytes : List UInt8) (count : Nat)
    (hcount : (terminal.socket.write carrier bytes).result = .ok count) :
    let before := terminal.socket.connection.outbound.input
    let after := (terminal.socket.write carrier bytes).socket.connection.outbound.input
    let queued := if before.closed then [] else bytes.take count
    count = min bytes.length before.free ∧
      before.Passes after queued
        (payloads ((terminal.spoken (.write bytes)).map Segment.chunk)) ∧
      (after.pushed = before.pushed + count ↔ before.closed = false ∨ count = 0) := by
  intro before after queued
  have hroom : count = min bytes.length before.free :=
    terminal.socket.eq_writable_of_write carrier bytes count hcount
  have hqueued : before.accepted bytes = queued := by
    simp only [queued, Pipe.accepted]
    split
    · rfl
    · rw [List.take_eq_take_iff]
      omega
  have hpasses : before.Passes after queued
      (payloads ((terminal.spoken (.write bytes)).map Segment.chunk)) := by
    have hsend :=
      (terminal.socket.connection.mapOutgoing fun input => input.push bytes).passes_send
    have hboth := (before.passes_push bytes).trans hsend
    rw [List.append_nil, List.nil_append, hqueued] at hboth
    rw [spoken_write]
    simp only [after, Socket.connection_write]
    exact hboth
  refine ⟨hroom, hpasses, ?_⟩
  rw [hpasses.pushed_eq]
  cases hclosed : before.closed with
  | true =>
      simp only [queued, hclosed, ↓reduceIte, List.length_nil, reduceCtorEq, false_or]
      omega
  | false =>
      simp only [queued, hclosed, Bool.false_eq_true, ↓reduceIte, List.length_take, true_or,
        iff_true]
      omega

-- The stream has room for four of six bytes, and the window for two of these.
theorem write_counts_room_tight :
    let flow : Flow := ⟨⟨⟨10, 0, 0, 2⟩, 40000⟩, ⟨⟨10, 0, 0, 1⟩, 80⟩⟩
    let opening : List UInt8 :=
      [69, 0, 0, 40, 0, 0, 64, 0, 64, 6, 38, 206, 10, 0, 0, 1, 10, 0, 0, 2, 0, 80, 156, 64,
        0, 0, 0, 5, 0, 0, 0, 0, 80, 2, 0, 3, 255, 71, 0, 0]
    let terminal := ((Terminal.ofSettings 1 flow { Settings.standard with capacity := 4 } 0
      ).performAll Tap.quiet [.handle opening]).1
    let response := terminal.socket.write Tap.quiet [1, 2, 3, 4, 5, 6]
    response.result = .ok 4 ∧
      (terminal.spoken (.write [1, 2, 3, 4, 5, 6])).map (·.chunk.payload) = [[1, 2]] ∧
      response.socket.connection.outbound.input.buffer = [3, 4] ∧
      response.socket.connection.outbound.input.pushed = 4 := by
  intro flow opening terminal response
  have hresult : response.result = .ok 4 := by
    simp only [response, terminal, opening, flow]
    cbv
  have hsent : (terminal.spoken (.write [1, 2, 3, 4, 5, 6])).map (·.chunk.payload) = [[1, 2]] := by
    simp only [terminal, opening, flow]
    cbv
  have hinput : terminal.socket.connection.outbound.input = Pipe.empty 4 := by
    simp only [terminal, opening, flow]
    cbv
  obtain ⟨-, ⟨hbuffer, hpushed, -⟩, -⟩ :=
    write_counts_room terminal Tap.quiet [1, 2, 3, 4, 5, 6] 4 hresult
  rw [payloads, List.flatMap_map, List.flatMap_def, hsent, hinput] at hbuffer
  rw [hinput] at hpushed
  exact ⟨hresult, hsent, List.append_cancel_left hbuffer, hpushed⟩

-- The stream was closed, and nothing goes into it any more. A write of two bytes returns two.
theorem counts_refused :
    let flow : Flow := ⟨⟨⟨10, 0, 0, 2⟩, 40000⟩, ⟨⟨10, 0, 0, 1⟩, 80⟩⟩
    let closed := ((Terminal.ofSettings 1 flow Settings.standard 0).performAll Tap.quiet [.close]).1
    let response := closed.socket.write Tap.quiet [1, 2]
    response.result = .ok 2 ∧ closed.socket.connection.outbound.input.pushed = 0 ∧
      response.socket.connection.outbound.input.pushed = 0 := by
  cbv

end Terminal

end UserTcp
