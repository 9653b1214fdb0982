import UserTcp.Alarm
import UserTcp.Pipe.Basic
import UserTcp.Segment.Basic

namespace UserTcp

-- A chunk that was sent and is not yet acknowledged to its end, with the absolute index
-- of its first sequence number.
structure Flight where
  start : Nat
  chunk : Chunk
  deriving DecidableEq

def Flight.stop (flight : Flight) : Nat :=
  flight.start + flight.chunk.span

-- The sending half of a connection. It cuts its input into chunks that fit the window
-- of the other side, keeps each until it is acknowledged, and sends the oldest again
-- whenever the alarm is due.
structure Outbound where
  input : Pipe
  initial : SeqNo
  payloadLimit : Nat
  -- The absolute index of the next sequence number to use.
  next : Nat
  window : UInt16
  synSent : Bool
  finSent : Bool
  flights : List Flight
  inFlight : Nat
  alarm : Alarm
  -- Chunks sent again since the last acknowledgment of a whole chunk.
  retransmissions : Nat
  deriving DecidableEq

namespace Outbound

-- The window has room for the SYN until the other side says otherwise.
def ofInput (input : Pipe) (initial : SeqNo) (timeout : Millis) (payloadLimit : Nat) :
    Outbound where
  input := input
  initial := initial
  payloadLimit := payloadLimit
  next := 0
  window := 1
  synSent := false
  finSent := false
  flights := []
  inFlight := 0
  alarm := Alarm.ofTimeout timeout
  retransmissions := 0

-- A chunk without sequence numbers, to carry an acknowledgment.
def emptyChunk (outbound : Outbound) : Chunk where
  seqno := SeqNo.ofIndex outbound.next outbound.initial
  syn := false
  payload := []
  fin := false
  rst := outbound.input.failed

-- A closed window still lets one sequence number through, to ask whether it has opened.
def usableWindow (outbound : Outbound) : Nat :=
  max outbound.window.toNat 1

-- The next fresh chunk, and the input without its payload. The FIN joins only when it
-- fits behind the payload.
def cut (outbound : Outbound) (window : Nat) : Chunk × Pipe :=
  let syn := !outbound.synSent
  let room := window - outbound.inFlight - syn.toNat
  let taken := outbound.input.read (min (min room outbound.payloadLimit) outbound.input.buffered)
  let fin := taken.2.drained && decide (taken.1.length < room)
  ({ outbound.emptyChunk with syn := syn, payload := taken.1, fin := fin }, taken.2)

def launch (outbound : Outbound) (chunk : Chunk) (input : Pipe) : Outbound :=
  { outbound with
    input := input
    next := outbound.next + chunk.span
    synSent := outbound.synSent || chunk.syn
    finSent := outbound.finSent || chunk.fin
    flights := outbound.flights ++ [⟨outbound.next, chunk⟩]
    inFlight := outbound.inFlight + chunk.span
    alarm := if outbound.alarm.running then outbound.alarm else outbound.alarm.start }

-- Sends fresh chunks until the window is full, the FIN is out or there is nothing to send.
def fill (outbound : Outbound) (window : Nat) : Outbound × List Chunk :=
  if outbound.inFlight < window ∧ outbound.finSent = false then
    let fresh := outbound.cut window
    if 0 < fresh.1.span then
      let rest := (outbound.launch fresh.1 fresh.2).fill window
      (rest.1, fresh.1 :: rest.2)
    else (outbound, [])
  else (outbound, [])
termination_by window - outbound.inFlight
decreasing_by
  rename_i hroom hspan
  change 0 < (outbound.cut window).1.span at hspan
  simp only [launch]
  omega

def send (outbound : Outbound) : Outbound × List Chunk :=
  outbound.fill outbound.usableWindow

def failInput (outbound : Outbound) : Outbound :=
  { outbound with input := outbound.input.fail }

-- Forgets the flights that end at or before `ack`, from the oldest on.
def forget (ack : Nat) : List Flight → Nat → List Flight × Nat
  | [], inFlight => ([], inFlight)
  | flight :: rest, inFlight =>
      if flight.stop ≤ ack then forget ack rest (inFlight - flight.chunk.span)
      else (flight :: rest, inFlight)

-- Takes an absolute acknowledgment. When it covers a whole chunk, the timeout is back at
-- its first value and the alarm starts again, or stops when nothing is left to wait for.
def acknowledge (outbound : Outbound) (ack : Nat) : Outbound :=
  let left := forget ack outbound.flights outbound.inFlight
  if left.1.length < outbound.flights.length then
    let alarm := outbound.alarm.resetTimeout
    { outbound with
      flights := left.1
      inFlight := left.2
      retransmissions := 0
      alarm := if left.1.isEmpty then alarm.stop else alarm.start }
  else outbound

-- The window is taken from every feedback, also from one whose acknowledgment is ignored
-- because it covers what was never sent.
def receive (outbound : Outbound) (feedback : Feedback) : Outbound :=
  let outbound := { outbound with window := feedback.window }
  if feedback.rst then outbound.failInput
  else
    match feedback.ackno with
    | none => if feedback.window = 0 then outbound.failInput else outbound
    | some ackno =>
        let ack := ackno.nearestIndex outbound.initial outbound.next
        if outbound.next < ack then outbound else outbound.acknowledge ack

-- Sends the oldest flight again. While the window is closed this only asks whether it has
-- opened, and the timeout stays as it is.
def retransmit (outbound : Outbound) (oldest : Flight) : Outbound × Option Chunk :=
  let alarm := if 0 < outbound.window then outbound.alarm.backOff else outbound.alarm
  ({ outbound with
      retransmissions := outbound.retransmissions + 1
      alarm := alarm.start },
    some oldest.chunk)

def elapse (outbound : Outbound) (time : Millis) : Outbound × Option Chunk :=
  let outbound := { outbound with alarm := outbound.alarm.advance time }
  if outbound.alarm.due then
    match outbound.flights with
    | [] => ({ outbound with alarm := outbound.alarm.stop }, none)
    | oldest :: _ => outbound.retransmit oldest
  else (outbound, none)

-- The FIN is out, and all of it is acknowledged.
def finished (outbound : Outbound) : Bool :=
  outbound.finSent && outbound.flights.isEmpty

end Outbound

end UserTcp
