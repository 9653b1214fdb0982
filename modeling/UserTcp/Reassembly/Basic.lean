import UserTcp.Pipe.Basic
import UserTcp.Reassembly.Held

namespace UserTcp

-- Puts the pieces of a stream back in order. The pieces come in any order, overlap and
-- repeat. What continues the stream goes to the output at once, what lies behind a gap
-- is held, and what has no room in the output is not taken.
structure Reassembly where
  output : Pipe
  held : Held
  -- One past the last byte of the stream, once a piece has told.
  finalIndex : Option Nat
  deriving DecidableEq

namespace Reassembly

def ofOutput (output : Pipe) : Reassembly where
  output := output
  held := Held.empty
  finalIndex := none

-- The index of the byte that the output waits for.
def expected (reassembly : Reassembly) : Nat :=
  reassembly.output.pushed

-- The first index without room in the output.
def limit (reassembly : Reassembly) : Nat :=
  reassembly.expected + reassembly.output.free

def releaseRuns : List Run → Nat → Pipe → Held × Pipe
  | [], count, output => (⟨[], count⟩, output)
  | run :: rest, count, output =>
      if run.start = output.pushed then
        releaseRuns rest (count - run.bytes.length) (output.push run.bytes)
      else (⟨run :: rest, count⟩, output)

def release (reassembly : Reassembly) : Reassembly :=
  let released := releaseRuns reassembly.held.runs reassembly.held.count reassembly.output
  { reassembly with held := released.1, output := released.2 }

-- The part of a piece that the output still lacks and has room for.
def clip (reassembly : Reassembly) (piece : Run) : Run :=
  let start := max piece.start reassembly.expected
  let stop := min piece.stop reassembly.limit
  ⟨start, (piece.bytes.drop (start - piece.start)).take (stop - start)⟩

def accept (reassembly : Reassembly) (piece : Run) : Reassembly :=
  let clipped := reassembly.clip piece
  if clipped.bytes = [] then reassembly
  else { reassembly with held := reassembly.held.store clipped }.release

-- Remembers where the stream ends. A piece that is the last one and does not fit to its
-- end tells nothing.
def noteFinal (reassembly : Reassembly) (piece : Run) (last : Bool) : Reassembly :=
  if last && decide (piece.stop ≤ reassembly.limit) then
    { reassembly with finalIndex := some piece.stop }
  else reassembly

def closeAtFinal (reassembly : Reassembly) : Reassembly :=
  if reassembly.finalIndex = some reassembly.expected then
    { reassembly with output := reassembly.output.close }
  else reassembly

-- A piece can be used while the output is open and has room at the place where it begins.
def admits (reassembly : Reassembly) (piece : Run) : Bool :=
  !reassembly.output.closed && reassembly.output.free != 0 &&
    decide (piece.start < reassembly.limit)

def insert (reassembly : Reassembly) (piece : Run) (last : Bool) : Reassembly :=
  if reassembly.admits piece then
    ((reassembly.noteFinal piece last).accept piece).closeAtFinal
  else reassembly

def pending (reassembly : Reassembly) : Nat :=
  reassembly.held.count

end Reassembly

end UserTcp
