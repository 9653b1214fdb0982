import UserTcp.Proofs.Connection.Events
import UserTcp.Socket.Basic

namespace UserTcp

def wholeMillis (microseconds : Nat) : Millis :=
  UInt64.ofNat (microseconds / 1000)

-- A socket with its clock, in microseconds, and the bytes that its owner has read from it.
structure Terminal where
  socket : Socket
  now : Nat
  taken : List UInt8

-- What the owner of a socket does with it, and that the clock goes on.
inductive Terminal.Call where
  | connect
  | write (bytes : List UInt8)
  | close
  | read
  | handle (datagram : List UInt8)
  | catchUp
  | wait (microseconds : Nat)

-- What there is to a terminal but for datagrams: the connection, and for how many microseconds it
-- has not been told that time has passed.
structure Core where
  connection : Connection
  idle : Nat

namespace Core

open Terminal

def ofSettings (id : Nat) (settings : Settings) : Core where
  connection := Connection.ofSettings id settings
  idle := 0

-- What a call means to the connection. A datagram means nothing as such.
def events (core : Core) : Call → List Connection.Event
  | .connect => [.send]
  | .write bytes => [.outgoing (.push bytes) (Pipe.Op.takes_push bytes), .send]
  | .close => [.outgoing .close Pipe.Op.takes_close, .send]
  | .read => [.incoming (.read core.connection.inbound.stream.buffered) rfl]
  | .handle _ => []
  | .catchUp =>
      if wholeMillis core.idle = 0 then [] else [.elapse (wholeMillis core.idle)]
  | .wait _ => []

def idleAfter (core : Core) : Call → Nat
  | .catchUp => core.idle - (wholeMillis core.idle).toNat * 1000
  | .wait microseconds => core.idle + microseconds
  | _ => core.idle

def perform (core : Core) (call : Call) : Core × List Segment :=
  let moved := core.connection.run (core.events call)
  (⟨moved.1, core.idleAfter call⟩, moved.2)

def hear (core : Core) (segment : Segment) : Core × List Segment :=
  let received := core.connection.receive segment
  ({ core with connection := received.1 }, received.2)

end Core

namespace Terminal

def ofSettings (id : Nat) (flow : Flow) (settings : Settings) (now : Nat) : Terminal where
  socket := Socket.ofSettings id flow settings now
  now := now
  taken := []

structure Outcome (link : Type) where
  terminal : Terminal
  carrier : link
  result : Except Failure Unit

section Perform

variable {link : Type} [Link link]

-- Of the result it is kept whether there was a failure.
def absorb {result : Type} (terminal : Terminal) (response : Response link result) :
    Outcome link :=
  ⟨{ terminal with socket := response.socket }, response.carrier, response.result.map fun _ => ()⟩

def perform (terminal : Terminal) (carrier : link) : Call → Outcome link
  | .connect => terminal.absorb (terminal.socket.connect carrier)
  | .write bytes => terminal.absorb (terminal.socket.write carrier bytes)
  | .close => terminal.absorb (terminal.socket.close carrier)
  | .read =>
      let taken := terminal.socket.read
      ⟨{ terminal with socket := taken.2, taken := terminal.taken ++ taken.1 }, carrier, .ok ()⟩
  | .handle datagram => terminal.absorb (terminal.socket.handle carrier datagram)
  | .catchUp => terminal.absorb (terminal.socket.catchUp carrier terminal.now)
  | .wait microseconds => ⟨{ terminal with now := terminal.now + microseconds }, carrier, .ok ()⟩

def performAll (terminal : Terminal) (carrier : link) : List Call → Terminal × link
  | [] => (terminal, carrier)
  | call :: rest =>
      let outcome := terminal.perform carrier call
      outcome.terminal.performAll outcome.carrier rest

end Perform

def core (terminal : Terminal) : Core where
  connection := terminal.socket.connection
  idle := terminal.now - terminal.socket.reported

-- The segment that a datagram brings for this terminal.
def heard (terminal : Terminal) (datagram : List UInt8) : Option Segment :=
  match Datagram.decode datagram with
  | .error _ => none
  | .ok (flow, segment) => if flow = terminal.socket.flow.reverse then some segment else none

def events (terminal : Terminal) : Call → List Connection.Event
  | .handle datagram => (terminal.heard datagram).toList.map .receive
  | call => terminal.core.events call

def reportedAfter (terminal : Terminal) : Call → Nat
  | .catchUp => terminal.socket.reported + (terminal.socket.unreported terminal.now).toNat * 1000
  | _ => terminal.socket.reported

def nowAfter (terminal : Terminal) : Call → Nat
  | .wait microseconds => terminal.now + microseconds
  | _ => terminal.now

def takenAfter (terminal : Terminal) : Call → List UInt8
  | .read => terminal.taken ++ terminal.socket.read.1
  | _ => terminal.taken

-- What a call makes of a terminal. No link has a part in it.
def after (terminal : Terminal) (call : Call) : Terminal where
  socket := {
    flow := terminal.socket.flow
    connection := (terminal.socket.connection.run (terminal.events call)).1
    reported := terminal.reportedAfter call }
  now := terminal.nowAfter call
  taken := terminal.takenAfter call

-- The segments that the connection sends meanwhile, whether they get anywhere or not.
def spoken (terminal : Terminal) (call : Call) : List Segment :=
  (terminal.socket.connection.run (terminal.events call)).2

-- What the connection makes of a call, or the overflow that cuts it short.
def spoken? (terminal : Terminal) (call : Call) : Except Overflow (Connection × List Segment) :=
  terminal.socket.connection.run? (terminal.events call)

-- A call that overflow cuts short returns that, and any other what has come of its segments.
def ending (call : Except Overflow (Connection × List Segment)) (sent : Except Failure Unit) :
    Except Failure Unit :=
  (call.mapError Failure.overflow).bind fun _ => sent

-- What a stream cannot take in makes no difference to it.
theorem push_take_writable (pipe : Pipe) (bytes : List UInt8) :
    pipe.push (bytes.take (min bytes.length pipe.free)) = pipe.push bytes := by
  have haccepted : pipe.accepted (bytes.take (min bytes.length pipe.free)) =
      pipe.accepted bytes := by
    unfold Pipe.accepted
    split
    · rfl
    · rw [List.take_take, List.take_eq_take_iff]
      omega
  simp only [Pipe.push, haccepted]

variable {link : Type} [Link link]

theorem absorb_emit (terminal : Terminal) (socket : Socket) (carrier : link)
    (call : Except Overflow (Connection × List Segment)) :
    let left := socket.connection.leave call
    terminal.absorb (socket.emit carrier call) =
      ⟨{ terminal with socket := { socket with connection := left.1 } },
        (transmit socket.flow carrier left.2).1,
        ending call (transmit socket.flow carrier left.2).2⟩ := by
  intro left
  cases call with
  | error cause => rfl
  | ok step =>
      change (⟨_, _, (transmit socket.flow carrier step.2).2.map fun _ => ()⟩ : Outcome link) =
        ⟨_, _, (transmit socket.flow carrier step.2).2⟩
      cases (transmit socket.flow carrier step.2).2 <;> rfl

theorem absorb_write (terminal : Terminal) (carrier : link) (bytes : List UInt8) :
    terminal.absorb (terminal.socket.write carrier bytes) =
      terminal.absorb (terminal.socket.emit carrier
        (.ok (terminal.socket.connection.mapOutgoing fun input => input.push bytes).send)) := by
  have hpush : terminal.socket.connection.mapOutgoing (fun input =>
      input.push (bytes.take (terminal.socket.writable bytes))) =
        terminal.socket.connection.mapOutgoing fun input => input.push bytes := by
    simp only [Connection.mapOutgoing, Socket.writable, push_take_writable]
  simp only [absorb, Socket.write, Socket.send, Socket.emit, hpush]
  cases (transmit terminal.socket.flow carrier _).2 <;> rfl

theorem perform_handle (terminal : Terminal) (carrier : link) (datagram : List UInt8) :
    terminal.perform carrier (.handle datagram) =
      match terminal.heard datagram with
      | none => ⟨terminal, carrier, .ok ()⟩
      | some segment =>
          terminal.absorb (terminal.socket.emit carrier
            (terminal.socket.connection.receive? segment)) := by
  simp only [perform, Socket.handle, heard]
  cases Datagram.decode datagram with
  | error error => rfl
  | ok decoded =>
      simp only
      split <;> rfl

theorem perform_catchUp (terminal : Terminal) (carrier : link) :
    terminal.perform carrier .catchUp =
      ⟨terminal.after .catchUp,
        (transmit terminal.socket.flow carrier (terminal.spoken .catchUp)).1,
        ending (terminal.spoken? .catchUp)
          (transmit terminal.socket.flow carrier (terminal.spoken .catchUp)).2⟩ := by
  have hunreported : terminal.socket.unreported terminal.now = wholeMillis terminal.core.idle := rfl
  simp only [perform, Socket.catchUp, after, spoken, spoken?, events, Core.events, reportedAfter,
    hunreported]
  by_cases htime : wholeMillis terminal.core.idle = 0
  · simp only [htime, ↓reduceIte]
    rfl
  · rw [if_neg htime, if_neg htime, absorb_emit, Connection.run_singleton,
      Connection.run?_singleton]
    rfl

-- The segments that a call sends go to the link when the terminal has already moved on.
theorem perform_eq (terminal : Terminal) (carrier : link) (call : Call) :
    terminal.perform carrier call =
      ⟨terminal.after call, (transmit terminal.socket.flow carrier (terminal.spoken call)).1,
        ending (terminal.spoken? call)
          (transmit terminal.socket.flow carrier (terminal.spoken call)).2⟩ := by
  cases call with
  | connect =>
      simp only [perform, Socket.connect, Socket.send, absorb_emit, after, spoken, spoken?, events,
        Core.events, Connection.run_singleton, Connection.run?_singleton]
      rfl
  | write bytes =>
      simp only [perform, absorb_write, absorb_emit, after, spoken, spoken?, events, Core.events,
        Connection.run, Connection.step, List.nil_append, List.append_nil]
      rfl
  | close =>
      simp only [perform, Socket.close, Socket.send, absorb_emit, after, spoken, spoken?, events,
        Core.events, Connection.run, Connection.step, List.nil_append, List.append_nil]
      rfl
  | read => rfl
  | handle datagram =>
      rw [perform_handle]
      cases hheard : terminal.heard datagram with
      | none =>
          simp only [after, spoken, spoken?, events, hheard]
          rfl
      | some segment =>
          simp only [absorb_emit, after, spoken, spoken?, events, hheard, Option.toList_some,
            List.map_cons, List.map_nil, Connection.run_singleton, Connection.run?_singleton]
          rfl
  | catchUp => exact terminal.perform_catchUp carrier
  | wait microseconds => rfl

@[simp] theorem terminal_perform (terminal : Terminal) (carrier : link) (call : Call) :
    (terminal.perform carrier call).terminal = terminal.after call := by
  rw [perform_eq]

end Terminal

end UserTcp
