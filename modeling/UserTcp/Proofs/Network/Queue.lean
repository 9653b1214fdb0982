import UserTcp.Proofs.Channel.Order
import UserTcp.Proofs.Connection.Speaks
import UserTcp.Proofs.Network.Parting

namespace UserTcp

namespace Connection

variable {connection : Connection} {written : List UInt8}

-- The chunks that wait for their acknowledgment all look different on the wire, so the
-- stamp of a segment is the place of its chunk.
theorem start_stamp (hsends : connection.outbound.Sends written)
    (hle : connection.outbound.inFlight ≤ 65535) (flight : Flight)
    (hmem : flight ∈ connection.outbound.flights) (segment : Segment)
    (hchunk : segment.chunk = flight.chunk) :
    (connection.stamp segment).start = flight.start := by
  have hfound := Linked.flight_stamp connection segment ⟨flight, hmem, hchunk.symm⟩
  obtain ⟨hlower, hspan, hupper⟩ := hsends.tiles.mem flight hmem
  obtain ⟨hlower', -, hupper'⟩ := hsends.tiles.mem _ hfound
  have hsame : SeqNo.ofIndex (connection.stamp segment).start connection.outbound.initial =
      SeqNo.ofIndex flight.start connection.outbound.initial := by
    rw [← (hsends.placed flight hmem).seqno_eq, ← hchunk]
    exact (hsends.placed _ hfound).seqno_eq.symm
  simp only [Flight.stop] at hupper hupper'
  have hstart : (connection.stamp segment).flight.start = (connection.stamp segment).start := rfl
  rcases Nat.le_total (connection.stamp segment).start flight.start with hle | hge
  · exact SeqNo.ofIndex_inj hsame hle (by simp only [SeqNo.lap]; omega)
  · exact (SeqNo.ofIndex_inj hsame.symm hge (by simp only [SeqNo.lap]; omega)).symm

theorem start_stamp_of_span (hsends : connection.outbound.Sends written) (segment : Segment)
    (hspan : segment.chunk.span = 0) :
    (connection.stamp segment).start = connection.outbound.next := by
  have hnone : (connection.outbound.flights.find? fun flight =>
      flight.chunk = segment.chunk) = none := by
    rw [List.find?_eq_none]
    intro flight hmem hsame
    have hpos := (hsends.tiles.mem flight hmem).2.1
    rw [decide_eq_true_eq] at hsame
    rw [hsame, hspan] at hpos
    exact absurd hpos (Nat.lt_irrefl 0)
  simp only [stamp, hnone]

theorem flights_stamp (hsends : connection.outbound.Sends written)
    (hle : connection.outbound.inFlight ≤ 65535) (flights : List Flight)
    (hmem : ∀ flight ∈ flights, flight ∈ connection.outbound.flights) :
    (((flights.map Flight.chunk).map connection.segment).map connection.stamp).map Parcel.flight =
      flights := by
  induction flights with
  | nil => rfl
  | cons flight rest ih =>
      obtain ⟨hfirst, hrest⟩ := List.forall_mem_cons.mp hmem
      have hstart := start_stamp hsends hle flight hfirst (connection.segment flight.chunk) rfl
      have hflight : (connection.stamp (connection.segment flight.chunk)).flight = flight :=
        congrArg (Flight.mk · flight.chunk) hstart
      simp only [List.map_cons, hflight]
      exact congrArg (flight :: ·) (ih hrest)

-- What a connection sends continues what it has sent before.
theorem follows_send (hsends : connection.send.1.outbound.Sends written)
    (hle : connection.send.1.outbound.inFlight ≤ 65535) :
    Follows connection.outbound.initial connection.outbound.next
      ((connection.send.2.map connection.send.1.stamp).map Parcel.flight)
      connection.send.1.outbound.next := by
  have hinitial : connection.sending.outbound.initial = connection.outbound.initial :=
    connection.outbound.initial_send
  have hnext : connection.sending.outbound.next =
      connection.outbound.next + Outbound.spans connection.outbound.send.2 :=
    connection.outbound.next_send
  rcases connection.send_cases with ⟨-, hsend⟩ | ⟨-, ⟨hnone, -, hsend⟩ | ⟨-, hsend⟩⟩
  · rw [hsend]
    rfl
  · rw [hsend] at hsends ⊢
    rw [hnone, Outbound.spans_nil, Nat.add_zero] at hnext
    have hstart := start_stamp_of_span hsends
      (connection.sending.segment connection.sending.outbound.emptyChunk) rfl
    rw [hnext] at hstart
    refine ⟨hstart, ?_, ?_⟩
    · rw [← hnext, ← hinitial]
      rfl
    · exact (congrArg (· + 0) hstart).trans hnext.symm
  · rw [hsend] at hsends hle ⊢
    rw [hnext, ← hinitial]
    have hkept : ∀ flight ∈ Outbound.locate connection.outbound.next connection.outbound.send.2,
        flight ∈ connection.sending.outbound.flights := by
      intro flight hmem
      change flight ∈ connection.outbound.send.1.flights
      rw [Outbound.flights_send]
      exact List.mem_append_right _ hmem
    have hstamps := flights_stamp hsends hle _ hkept
    rw [Outbound.map_chunk_locate] at hstamps
    rw [hstamps]
    exact follows_locate _ _ fun flight hmem =>
      (hsends.placed flight (hkept flight hmem)).seqno_eq

end Connection

-- Feedback leaves alone where the sender stands.
theorem Host.follows_receive (host : Host) (parcel : Parcel)
    (hsends : host.connection.outbound.Sends host.written)
    (hafter : (host.receive parcel).1.connection.outbound.Sends host.written)
    (hle : (host.receive parcel).1.connection.outbound.inFlight ≤ 65535) :
    (host.receive parcel).1.connection.outbound.initial = host.connection.outbound.initial ∧
      Follows host.connection.outbound.initial host.connection.outbound.next
        ((host.receive parcel).2.map Parcel.flight)
        (host.receive parcel).1.connection.outbound.next := by
  have hsettles := hsends.settles_receive parcel.segment.feedback
  have hnext : (host.connection.feed parcel.segment).outbound.next =
      host.connection.outbound.next := hsettles.next_eq
  have hinitial : (host.connection.feed parcel.segment).outbound.initial =
      host.connection.outbound.initial := hsettles.initial_eq
  unfold Host.receive at hafter hle ⊢
  rcases host.connection.receive_cases parcel.segment with hsame | hbroken | hanswered
  · rw [hsame]
    exact ⟨rfl, rfl⟩
  · rw [hbroken]
    exact ⟨hinitial, hnext.symm⟩
  · rw [hanswered] at hafter hle ⊢
    have hfollows := Connection.follows_send hafter hle
    rw [Connection.outbound_noteClose, hinitial, hnext] at hfollows
    refine ⟨?_, hfollows⟩
    simp only [act]
    rw [Connection.initial_send, Connection.outbound_noteClose, hinitial]

namespace Exchange

-- A side gets the oldest parcel that is on the way to it, unless overflow cuts the call short.
def serve? (exchange : Exchange Host Parcel) (side : Side) : Option (Exchange Host Parcel) :=
  (exchange.deliver side 0 false).bind fun served =>
    if served.2.reports = [] then some served.1 else none

variable {exchange next : Exchange Host Parcel} {side : Side}

theorem deliver_of_nil (hwire : exchange.incoming side = []) :
    exchange.deliver side 0 false = none := by
  simp only [deliver, hwire, List.getElem?_nil]

-- The oldest parcel leaves the wire and comes to its side.
theorem deliver_of_cons {parcel : Parcel} {rest : List Parcel}
    (hwire : exchange.incoming side = parcel :: rest) :
    exchange.deliver side 0 false = some ((exchange.drop side 0).receive side parcel) := by
  simp only [deliver, hwire, List.getElem?_cons_zero, Bool.false_eq_true, ↓reduceIte]

theorem relates_receive_drop {parcel : Parcel} {rest : List Parcel}
    (hwire : exchange.incoming side = parcel :: rest)
    {relation : Host → Host → List Parcel → List Parcel → Prop}
    (hrelation : relation ((exchange.party side).receive parcel).1 (exchange.peer side)
      ((exchange.turnTo side).nearWire ++ ((exchange.party side).receive parcel).2) rest) :
    ((exchange.drop side 0).receive side parcel).1.Relates relation side := by
  have hrest : (exchange.incoming side).eraseIdx 0 = rest := by
    rw [hwire]
    rfl
  rw [← hrest] at hrelation
  cases side <;> exact hrelation

theorem reports_receive_drop (parcel : Parcel) :
    ((exchange.drop side 0).receive side parcel).2.reports =
      (exchange.party side).reports parcel := by
  cases side <;> rfl

theorem cases_of_serve (hserve : exchange.serve? side = some next) :
    ∃ parcel rest, exchange.incoming side = parcel :: rest ∧
      (exchange.party side).connection.DeadlineFits ∧
      ∀ relation : Host → Host → List Parcel → List Parcel → Prop,
        relation ((exchange.party side).receive parcel).1 (exchange.peer side)
          ((exchange.turnTo side).nearWire ++ ((exchange.party side).receive parcel).2) rest →
        next.Relates relation side := by
  unfold serve? at hserve
  cases hwire : exchange.incoming side with
  | nil =>
      rw [deliver_of_nil hwire] at hserve
      cases hserve
  | cons parcel rest =>
      rw [deliver_of_cons hwire, Option.bind_some, reports_receive_drop] at hserve
      split at hserve
      · rename_i hclear
        refine ⟨parcel, rest, rfl, (Host.reports_eq_nil_iff _ parcel).mp hclear, ?_⟩
        intro relation hrelation
        rw [← Option.some.inj hserve]
        exact relates_receive_drop hwire hrelation
      · cases hserve

-- Nobody writes while a side is served.
theorem written_serve (hserve : exchange.serve? side = some next) (other : Side) :
    (next.party other).written = (exchange.party other).written := by
  obtain ⟨parcel, rest, -, -, hnext⟩ := cases_of_serve hserve
  obtain ⟨hhost, hpeer⟩ := hnext (fun host peer _ _ =>
    host.written = (exchange.party side).written ∧ peer.written = (exchange.peer side).written)
    ⟨rfl, rfl⟩
  cases side <;> cases other
  · exact hhost
  · exact hpeer
  · exact hpeer
  · exact hhost

-- A served side is one to which something is on the way, and whose clock can show the end of its
-- lingering.
theorem isSome_serve?_iff : (exchange.serve? side).isSome ↔
    exchange.incoming side ≠ [] ∧ (exchange.party side).connection.DeadlineFits := by
  unfold serve?
  cases hwire : exchange.incoming side with
  | nil => simp only [deliver_of_nil hwire, Option.bind_none, Option.isSome_none,
      Bool.false_eq_true, ne_eq, not_true_eq_false, false_and]
  | cons parcel rest =>
      rw [deliver_of_cons hwire, Option.bind_some, reports_receive_drop]
      simp only [← Host.reports_eq_nil_iff _ parcel, Option.isSome_ite, ne_eq, reduceCtorEq,
        not_false_eq_true, true_and]

-- The indices of what the applications have written have 64 bits.
def Short (exchange : Exchange Host Parcel) : Prop :=
  ∀ side, (exchange.party side).written.length + 2 < SeqNo.indexLimit

theorem Short.peer (hshort : exchange.Short) (side : Side) :
    (exchange.peer side).written.length + 2 < SeqNo.indexLimit := by
  cases side
  · exact hshort .far
  · exact hshort .near

end Exchange

end UserTcp
