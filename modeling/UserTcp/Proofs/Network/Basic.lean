import UserTcp.Exchange.Basic
import UserTcp.Proofs.Connection.Active
import UserTcp.Proofs.Pipe.Carries

namespace UserTcp

-- A segment on its way. The absolute indices that its sequence numbers stand for are known
-- to whoever looks at both sides, but not to the side that receives it.
structure Parcel where
  segment : Segment
  start : Nat
  acked : Option Nat

-- The indices of a segment at the time it goes out. A chunk that takes up sequence numbers
-- is among the flights, and an empty one stands at the next index.
def Connection.stamp (connection : Connection) (segment : Segment) : Parcel where
  segment := segment
  start :=
    match connection.outbound.flights.find? fun flight => flight.chunk = segment.chunk with
    | some flight => flight.start
    | none => connection.outbound.next
  acked := connection.inbound.initial.map fun _ => connection.inbound.received

-- A connection with what its application has done: the bytes that the outgoing stream has
-- accepted, and those that were taken out of the incoming one.
structure Host where
  connection : Connection
  written : List UInt8
  taken : List UInt8

namespace Host

def ofSettings (id : Nat) (settings : Settings) : Host where
  connection := Connection.ofSettings id settings
  written := []
  taken := []

def received (host : Host) : List UInt8 :=
  host.taken ++ host.connection.inbound.stream.buffer

-- What is done at a host. Its application writes to the outgoing stream and reads from the
-- incoming one.
inductive Call where
  | send
  | elapse (time : Millis)
  | outgoing (op : Pipe.Op) (hop : op.takes = false)
  | incoming (op : Pipe.Op) (hop : op.feeds = false)

-- A connection that has acted, with the segments that it sends.
def act (host : Host) (acted : Connection × List Segment) : Host × List Parcel :=
  ({ host with connection := acted.1 }, acted.2.map acted.1.stamp)

def perform (host : Host) : Call → Host × List Parcel
  | .send => host.act host.connection.send
  | .elapse time => host.act (host.connection.elapse time)
  | .outgoing op _ =>
      ({ host with
          connection := host.connection.mapOutgoing fun pipe => (pipe.apply op).2
          written := host.written ++ op.added host.connection.outbound.input }, [])
  | .incoming op _ =>
      ({ host with
          connection := host.connection.mapIncoming fun pipe => (pipe.apply op).2
          taken := host.taken ++ op.removed host.connection.inbound.stream }, [])

def receive (host : Host) (parcel : Parcel) : Host × List Parcel :=
  host.act (host.connection.receive parcel.segment)

end Host

-- What cuts the call with a parcel short, if anything does.
def Host.reports (host : Host) (parcel : Parcel) : List Overflow :=
  match host.connection.receive? parcel.segment with
  | .error cause => [cause]
  | .ok _ => []

instance : Party Host Parcel Overflow where
  receive := fun host parcel =>
    let received := host.receive parcel
    ⟨received.1, received.2, host.reports parcel⟩

theorem Host.receive_of_inactive (host : Host) (parcel : Parcel)
    (hinactive : host.connection.active ≠ .ok true) : host.receive parcel = (host, []) := by
  rw [receive, Connection.receive_of_inactive parcel.segment hinactive]
  rfl

-- Nothing does as long as the clock can show the end of the lingering.
theorem Host.reports_eq_nil_iff (host : Host) (parcel : Parcel) :
    host.reports parcel = [] ↔ host.connection.DeadlineFits := by
  rw [← Connection.exists_active_iff, ← Connection.exists_receive?_iff parcel.segment, reports]
  cases host.connection.receive? parcel.segment with
  | error cause => simp only [reduceCtorEq, exists_false]
  | ok received => simp only [Except.ok.injEq, exists_eq']

-- A segment is not too old for a host when both of its indices are less than half a lap
-- behind those that the host has reached.
def Parcel.timely (parcel : Parcel) (host : Host) : Bool :=
  decide (host.connection.inbound.stream.pushed + 1 < parcel.start + SeqNo.lap / 2) &&
    parcel.acked.all fun ack => decide (host.connection.outbound.next < ack + SeqNo.lap / 2)

theorem Parcel.timely_iff (parcel : Parcel) (host : Host) :
    parcel.timely host = true ↔
      host.connection.inbound.stream.pushed + 1 < parcel.start + SeqNo.lap / 2 ∧
        ∀ ack, parcel.acked = some ack →
          host.connection.outbound.next < ack + SeqNo.lap / 2 := by
  rw [timely, Bool.and_eq_true, decide_eq_true_eq, Option.all_eq_true]
  simp only [decide_eq_true_eq]

-- Two hosts joined by a network. Segments can be lost, can come in any order and as often
-- as the network likes, but not too late.
inductive Move where
  | call (side : Side) (call : Host.Call)
  | deliver (side : Side) (index : Nat) (keep : Bool)
  | lose (side : Side) (index : Nat)

namespace Exchange

def peer {α β : Type} (exchange : Exchange α β) (side : Side) : α :=
  exchange.flip.party side

def move? (exchange : Exchange Host Parcel) : Move → Option (Exchange Host Parcel)
  | .call side call =>
      let performed := (exchange.party side).perform call
      some (exchange.put side performed.1 performed.2)
  | .deliver side index keep =>
      match (exchange.incoming side)[index]? with
      | none => none
      | some parcel =>
          if parcel.timely (exchange.party side) then
            (exchange.deliver side index keep).map Prod.fst
          else none
  | .lose side index => some (exchange.drop side index)

def run? (exchange : Exchange Host Parcel) : List Move → Option (Exchange Host Parcel)
  | [] => some exchange
  | move :: rest =>
      match exchange.move? move with
      | none => none
      | some next => next.run? rest

end Exchange

end UserTcp
