import UserTcp.Exchange.Basic
import UserTcp.Proofs.Connection.Events
import UserTcp.Proofs.Datagram.RoundTrip
import UserTcp.Proofs.Link.Watched
import UserTcp.Proofs.Socket.Terminal

namespace UserTcp

-- The flow from a side to its peer, given the one from the near side.
def Flow.ofSide (flow : Flow) : Side → Flow
  | .near => flow
  | .far => flow.reverse

-- A datagram brings nothing to the owner of a flow: it holds no segment, or one of another flow.
def Flow.ignores (flow : Flow) (datagram : List UInt8) : Bool :=
  match Datagram.decode datagram with
  | .error _ => true
  | .ok (other, _) => decide (other ≠ flow.reverse)

-- What moves a side to do something.
inductive Prompt where
  | call (call : Terminal.Call)
  -- Of what the peer has sent something arrives, perhaps not for the first time.
  | deliver (index : Nat)

-- A side does something. Of what it sends meanwhile, its link refuses what it is too busy for.
structure Act where
  side : Side
  prompt : Prompt
  busy : List Bool

-- What comes from outside of the exchange brings no segments.
def Prompt.inside (flow : Flow) : Prompt → Bool
  | .call (.handle datagram) => flow.ignores datagram
  | _ => true

def Act.inside (flow : Flow) (act : Act) : Bool :=
  act.prompt.inside (flow.ofSide act.side)

-- Acts one after another, with the segments that each of them sends.
def Act.run {α : Type} (step : α → Act → α × List Segment) (start : α) :
    List Act → α × List (List Segment)
  | [] => (start, [])
  | act :: rest =>
      let stepped := step start act
      let others := run step stepped.1 rest
      (others.1, stepped.2 :: others.2)

namespace Exchange

section Terminals

variable (exchange : Exchange Terminal (Offer (List UInt8)))

-- What arrives comes through a buffer of a fixed length.
def call? (side : Side) : Prompt → Option Terminal.Call
  | .call call => some call
  | .deliver index =>
      match (exchange.incoming side)[index]? with
      | some ⟨packet, .accepted⟩ => some (.handle (packet.take Socket.datagramLimit))
      | _ => none

-- All that is offered to the link goes on the wire, with what became of it, and stays there: what
-- the link took can arrive at any time and any number of times.
def relay (act : Act) : Exchange Terminal (Offer (List UInt8)) × List Segment :=
  match exchange.call? act.side act.prompt with
  | none => (exchange, [])
  | some call =>
      let terminal := exchange.party act.side
      let outcome := terminal.perform (⟨⟨act.busy⟩, []⟩ : Watched Gate) call
      (exchange.put act.side outcome.terminal outcome.carrier.offers, terminal.spoken call)

theorem relay_far (prompt : Prompt) (busy : List Bool) :
    exchange.relay ⟨.far, prompt, busy⟩ =
      ((exchange.flip.relay ⟨.near, prompt, busy⟩).1.flip,
        (exchange.flip.relay ⟨.near, prompt, busy⟩).2) := by
  have hcall : exchange.call? .far prompt = exchange.flip.call? .near prompt := by
    cases prompt <;> rfl
  simp only [relay, hcall]
  cases exchange.flip.call? .near prompt <;> rfl

end Terminals

section Cores

variable (exchange : Exchange Core (Offer Segment))

def hand? (side : Side) : Prompt → Option (Core × List Segment)
  | .call call => some ((exchange.party side).perform call)
  | .deliver index =>
      match (exchange.incoming side)[index]? with
      | some ⟨segment, .accepted⟩ => some ((exchange.party side).hear segment.carried)
      | _ => none

-- The same act when segments need no datagrams.
def hand (act : Act) : Exchange Core (Offer Segment) × List Segment :=
  match exchange.hand? act.side act.prompt with
  | none => (exchange, [])
  | some moved =>
      (exchange.put act.side moved.1 ((⟨act.busy⟩ : Gate).answers moved.2), moved.2)

theorem hand_far (prompt : Prompt) (busy : List Bool) :
    exchange.hand ⟨.far, prompt, busy⟩ =
      ((exchange.flip.hand ⟨.near, prompt, busy⟩).1.flip,
        (exchange.flip.hand ⟨.near, prompt, busy⟩).2) := by
  have hmove : exchange.hand? .far prompt = exchange.flip.hand? .near prompt := by
    cases prompt <;> rfl
  simp only [hand, hmove]
  cases exchange.flip.hand? .near prompt <;> rfl

end Cores

end Exchange

namespace Datagram

-- A segment with few enough bytes comes out of the buffer as it went into the datagram.
theorem decode_take_of_encode {flow : Flow} {segment : Segment} {packet : List UInt8}
    (hpayload : segment.chunk.payload.length ≤ 1464) (hencode : encode flow segment = .ok packet) :
    decode (packet.take Socket.datagramLimit) = .ok (flow, segment.carried) := by
  obtain ⟨bytes, hbytes, hdecode, -⟩ := exists_encode flow segment (by omega)
  cases hencode.symm.trans hbytes
  have hlength : packet.length ≤ Socket.datagramLimit := by
    rw [((encode_eq_ok_iff flow segment packet).mp hencode).2]
    simp only [List.length_append, length_ipv4Header, length_tcpHeader, Socket.datagramLimit]
    omega
  rw [List.take_of_length_le hlength, ← List.append_nil packet]
  exact hdecode []

end Datagram

namespace Terminal

theorem heard_of_ignores {terminal : Terminal} {datagram : List UInt8}
    (hignores : terminal.socket.flow.ignores datagram = true) : terminal.heard datagram = none := by
  unfold Flow.ignores at hignores
  unfold heard
  cases hdecode : Datagram.decode datagram with
  | error error => rfl
  | ok decoded =>
      rw [hdecode] at hignores
      exact if_neg (of_decide_eq_true hignores)

theorem reportedAfter_le {terminal : Terminal} (hle : terminal.socket.reported ≤ terminal.now)
    (call : Call) : terminal.reportedAfter call ≤ terminal.nowAfter call := by
  cases call with
  | catchUp =>
      have htime : (terminal.socket.unreported terminal.now).toNat ≤
          (terminal.now - terminal.socket.reported) / 1000 := by
        rw [Socket.unreported, UInt64.toNat_ofNat']
        exact Nat.mod_le _ _
      simp only [reportedAfter, nowAfter]
      omega
  | wait microseconds => exact Nat.le_trans hle (Nat.le_add_right _ _)
  | _ => exact hle

theorem core_after {terminal : Terminal} (hle : terminal.socket.reported ≤ terminal.now)
    (call : Call) : (terminal.after call).core =
      ⟨(terminal.socket.connection.run (terminal.events call)).1,
        terminal.core.idleAfter call⟩ := by
  have hidle : (terminal.after call).core.idle = terminal.core.idleAfter call := by
    cases call with
    | catchUp => exact Nat.sub_add_eq _ _ _
    | wait microseconds => exact Nat.sub_add_comm hle
    | _ => rfl
  rw [← hidle]
  rfl

-- A call that brings no segment does to a terminal what it does to a core alone.
theorem perform_core {terminal : Terminal} (hle : terminal.socket.reported ≤ terminal.now)
    {call : Call} (hinside : (Prompt.call call).inside terminal.socket.flow = true) :
    ((terminal.after call).core, terminal.spoken call) = terminal.core.perform call := by
  have hevents : terminal.events call = terminal.core.events call := by
    cases call with
    | handle datagram => simp only [events, heard_of_ignores hinside]; rfl
    | _ => rfl
  rw [core_after hle, spoken, hevents]
  rfl

theorem hear_core {terminal : Terminal} (hle : terminal.socket.reported ≤ terminal.now)
    {datagram : List UInt8} {segment : Segment}
    (hdecode : Datagram.decode datagram = .ok (terminal.socket.flow.reverse, segment)) :
    ((terminal.after (.handle datagram)).core, terminal.spoken (.handle datagram)) =
      terminal.core.hear segment := by
  have hevents : terminal.events (.handle datagram) = [.receive segment] := by
    simp only [events, heard, hdecode, ↓reduceIte]
    rfl
  rw [core_after hle, spoken, hevents, Connection.run_singleton]
  rfl

end Terminal

end UserTcp
