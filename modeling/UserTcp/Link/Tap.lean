import UserTcp.Link.Basic

namespace UserTcp

inductive Fault where
  | busy
  | broken (reason : String)
  deriving DecidableEq

def Fault.outcome : Fault → SendOutcome
  | .busy => .busy
  | .broken reason => .failed reason

-- A link in memory. It keeps a record of the datagrams that it took, and can be told to
-- refuse sends or to lose what it takes.
structure Tap where
  -- The present fault, with the number of sends that it still spoils. Without a number it
  -- spoils all of them.
  fault : Option (Fault × Option Nat)
  lossy : Bool
  -- The datagrams taken, the oldest first.
  record : List (List UInt8)
  deriving DecidableEq

namespace Tap

def quiet : Tap where
  fault := none
  lossy := false
  record := []

def withFault (tap : Tap) (fault : Option Fault) (count : Option Nat) : Tap :=
  { tap with fault := fault.map fun fault => (fault, count) }

-- Sets the share of datagrams that get lost, as a decimal number `digits / 10 ^ places`.
-- This link loses all or nothing: all from a share of one on, nothing below.
def withLoss (tap : Tap) (digits : Int) (places : Nat) : Tap :=
  { tap with lossy := decide ((Nat.pow 10 places : Int) ≤ digits) }

-- Takes a datagram without a fault in the way.
def take (tap : Tap) (packet : List UInt8) : Tap :=
  if tap.lossy then tap else { tap with record := tap.record ++ [packet] }

def send (tap : Tap) (packet : List UInt8) : Tap × SendOutcome :=
  match tap.fault with
  | none => (tap.take packet, .accepted)
  | some (fault, none) => (tap, fault.outcome)
  | some (fault, some (count + 1)) =>
      ({ tap with fault := some (fault, some count) }, fault.outcome)
  | some (_, some 0) => (tap.take packet, .accepted)

instance : Link Tap where
  send := Tap.send

def clear (tap : Tap) : Tap :=
  { tap with record := [] }

end Tap

end UserTcp
