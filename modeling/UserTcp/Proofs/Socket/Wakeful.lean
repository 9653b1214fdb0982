import UserTcp.Proofs.Connection.Wakeful
import UserTcp.Proofs.Socket.Offers

namespace UserTcp.Terminal

variable {terminal : Terminal} {limit : Nat}

-- Every call that gives the connection something to send ends in sending it.
theorem wakeful_after (hwakeful : terminal.socket.connection.Wakeful limit) (call : Call) :
    (terminal.after call).socket.connection.Wakeful limit := by
  cases call with
  | connect => exact hwakeful.wakeful_send
  | write bytes =>
      exact (hwakeful.step (.outgoing (.push bytes) (Pipe.Op.takes_push bytes))).wakeful_send
  | close => exact (hwakeful.step (.outgoing .close Pipe.Op.takes_close)).wakeful_send
  | read => exact hwakeful.incoming _ rfl
  | handle datagram =>
      simp only [after, events]
      cases terminal.heard datagram with
      | none => exact hwakeful
      | some segment => exact hwakeful.receive segment
  | catchUp =>
      simp only [after, events, Core.events]
      split
      · exact hwakeful
      · exact hwakeful.elapse _
  | wait microseconds => exact hwakeful

theorem wakeful_foldl_after (hwakeful : terminal.socket.connection.Wakeful limit)
    (calls : List Call) : (calls.foldl after terminal).socket.connection.Wakeful limit :=
  List.foldlRecOn (motive := fun terminal => terminal.socket.connection.Wakeful limit) calls after
    hwakeful fun _ hbefore call _ => wakeful_after hbefore call

-- Only the clock makes a connection repeat itself.
theorem repeats_or_launches (hwakeful : terminal.socket.connection.Wakeful limit) (call : Call)
    (segment : Segment) (hmem : segment ∈ terminal.spoken call) (hspan : 0 < segment.chunk.span) :
    call = .catchUp ∧ terminal.socket.connection.outbound.flights.head?.map Flight.chunk =
        some segment.chunk ∨
      Connection.Launches terminal.socket.connection (terminal.after call).socket.connection limit
        segment := by
  cases call with
  | connect =>
      simp only [spoken, events, Core.events, Connection.run_singleton] at hmem
      exact .inr (Connection.launches_send hwakeful.portioned segment hmem hspan)
  | write bytes =>
      simp only [spoken, events, Core.events, Connection.run, Connection.step, List.nil_append,
        List.append_nil] at hmem
      have hpushed := hwakeful.step (.outgoing (.push bytes) (Pipe.Op.takes_push bytes))
      exact .inr (Connection.launches_send hpushed.portioned segment hmem hspan)
  | close =>
      simp only [spoken, events, Core.events, Connection.run, Connection.step, List.nil_append,
        List.append_nil] at hmem
      have hclosed := hwakeful.step (.outgoing .close Pipe.Op.takes_close)
      exact .inr (Connection.launches_send hclosed.portioned segment hmem hspan)
  | read => exact absurd hmem List.not_mem_nil
  | handle datagram =>
      simp only [spoken, after, events] at hmem ⊢
      cases hheard : terminal.heard datagram with
      | none =>
          rw [hheard] at hmem
          exact absurd hmem List.not_mem_nil
      | some heard =>
          rw [hheard, Option.toList_some, List.map_singleton, Connection.run_singleton] at hmem
          rw [Option.toList_some, List.map_singleton, Connection.run_singleton]
          exact .inr (Connection.launches_receive hwakeful.portioned heard segment hmem hspan)
  | catchUp =>
      simp only [spoken, events, Core.events] at hmem
      split at hmem
      · exact absurd hmem List.not_mem_nil
      · rw [Connection.run_singleton] at hmem
        exact .inl ⟨rfl, terminal.socket.connection.oldest_of_mem_elapse _ segment hmem hspan⟩
  | wait microseconds => exact absurd hmem List.not_mem_nil

-- A report of time that the alarm was set for makes the connection repeat its oldest chunk.
theorem repeats_when_due (hwakeful : terminal.socket.connection.Wakeful limit)
    (hsome : terminal.socket.unreported terminal.now ≠ 0)
    (hticks : terminal.socket.connection.Ticks (terminal.socket.unreported terminal.now))
    (hdue : (terminal.socket.connection.outbound.alarm.advance
      (terminal.socket.unreported terminal.now)).due = true) :
    ∃ again rest, terminal.spoken .catchUp = again :: rest ∧
      terminal.socket.connection.outbound.flights.head?.map Flight.chunk = some again.chunk := by
  have hevents : terminal.events .catchUp =
      [.elapse (terminal.socket.unreported terminal.now)] := if_neg hsome
  rw [spoken, hevents, Connection.run_singleton]
  exact Connection.repeats_when_due hwakeful.portioned.toAlert hticks hdue

variable {link : Type} [Link link]

-- Whatever calls are made and whatever comes in, a connection that is not broken is never left with
-- something to do and nothing that reminds it: either its window is full, its FIN is out or its
-- stream has nothing for it, and as long as bytes, the FIN or an acknowledgment are outstanding,
-- something is in flight and the alarm runs. As soon as time is reported that makes it due, the
-- oldest chunk goes out again. What a call sends and is not that starts behind all that was sent,
-- keeps to the payload of the settings and ends within the window, and nothing but what it sends is
-- offered to the link.
theorem keeps_awake (id : Nat) (flow : Flow) (settings : Settings) (now : Nat) (carrier : link)
    (calls : List Call) :
    let reached := (Terminal.ofSettings id flow settings now).performAll carrier calls
    let connection := reached.1.socket.connection
    let time := reached.1.socket.unreported reached.1.now
    (connection.failed = false →
      connection.outbound.Sated ∧
        (connection.outbound.input.buffer ≠ [] ∨
            connection.outbound.input.closed = true ∧ connection.outbound.finSent = false →
          connection.outbound.Armed)) ∧
      (0 < connection.outbound.inFlight → connection.outbound.Armed) ∧
      (time ≠ 0 → connection.Ticks time → (connection.outbound.alarm.advance time).due = true →
        ∃ again rest, reached.1.spoken .catchUp = again :: rest ∧
          connection.outbound.flights.head?.map Flight.chunk = some again.chunk) ∧
      ∀ call,
        let outcome := reached.1.perform (⟨reached.2, []⟩ : Watched link) call
        let next := outcome.terminal.socket.connection.outbound
        (∀ segment ∈ reached.1.spoken call, 0 < segment.chunk.span →
          call = .catchUp ∧
              connection.outbound.flights.head?.map Flight.chunk = some segment.chunk ∨
            ∃ flight ∈ next.flights,
              segment.chunk = flight.chunk ∧ connection.outbound.next ≤ flight.start ∧
                flight.chunk.payload.length ≤ settings.payloadLimit ∧
                flight.stop ≤ next.base + max next.window.toNat 1) ∧
          ∀ offer ∈ outcome.carrier.offers, ∃ segment ∈ reached.1.spoken call,
            Datagram.encode reached.1.socket.flow segment = .ok offer.packet := by
  intro reached connection time
  have hwakeful : connection.Wakeful settings.payloadLimit := by
    simp only [connection, reached, performAll_fst]
    exact wakeful_foldl_after (Connection.wakeful_ofSettings id settings) calls
  have hbalanced := hwakeful.portioned.toBalanced
  obtain ⟨written, hsends⟩ := hwakeful.sends
  refine ⟨fun hwhole => ?_, hbalanced.armed_of_inFlight,
    fun hsome hticks hdue => repeats_when_due hwakeful hsome hticks hdue, fun call => ?_⟩
  · have hsated := hwakeful.sated hwhole
    exact ⟨hsated, hsated.armed hbalanced hsends⟩
  · intro outcome next
    have hperform : outcome = _ := reached.1.perform_eq (⟨reached.2, []⟩ : Watched link) call
    refine ⟨fun segment hmem hspan => ?_, fun offer hmem => ?_⟩
    · simp only [next, hperform]
      exact repeats_or_launches hwakeful call segment hmem hspan
    · rw [hperform] at hmem
      exact exists_of_mem_offers reached.1.socket.flow reached.2 (reached.1.spoken call) hmem

end UserTcp.Terminal
