import UserTcp.Millis
import UserTcp.SeqNo.Basic

namespace UserTcp

-- How a connection is set up. Without a timeout no loss would ever be waited for, and
-- without room for payload no segment would carry the stream.
structure Settings where
  capacity : Nat
  -- The retransmission timeout before it was ever doubled.
  timeout : Millis
  payloadLimit : Nat
  -- Retransmissions in a row that are put up with before the connection is reset.
  retransmissionLimit : Nat
  initial : SeqNo
  timeout_pos : 0 < timeout
  payloadLimit_pos : 0 < payloadLimit
  deriving DecidableEq

inductive SettingsError where
  | zeroTimeout
  | zeroPayload
  deriving DecidableEq

def SettingsError.message : SettingsError → String
  | .zeroTimeout => "assertion failed: value > 0"
  | .zeroPayload => "assertion failed: value > 0"

namespace Settings

def standard : Settings where
  capacity := 64000
  timeout := 1000
  payloadLimit := 1000
  retransmissionLimit := 8
  initial := ⟨0⟩
  timeout_pos := by decide
  payloadLimit_pos := by decide

-- What may be chosen. The standard settings fill in the rest.
structure Choice where
  capacity : Option Nat
  timeout : Option Millis
  payloadLimit : Option Nat
  retransmissionLimit : Option Nat
  initial : Option SeqNo

def ofChoice (choice : Choice) : Except SettingsError Settings :=
  let timeout := choice.timeout.getD standard.timeout
  let payloadLimit := choice.payloadLimit.getD standard.payloadLimit
  if htimeout : 0 < timeout then
    if hpayload : 0 < payloadLimit then
      .ok {
        capacity := choice.capacity.getD standard.capacity
        timeout := timeout
        payloadLimit := payloadLimit
        retransmissionLimit := choice.retransmissionLimit.getD standard.retransmissionLimit
        initial := choice.initial.getD standard.initial
        timeout_pos := htimeout
        payloadLimit_pos := hpayload }
    else .error .zeroPayload
  else .error .zeroTimeout

end Settings

end UserTcp
