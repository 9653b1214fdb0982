namespace UserTcp

-- A bounded pipe of bytes. Bytes go in at one end and come out at the other in the
-- same order. What does not fit is not taken. The two totals count every byte that
-- ever went in and every byte that ever came out, so they serve as stream indices.
structure Pipe where
  capacity : Nat
  buffer : List UInt8
  pushed : Nat
  popped : Nat
  closed : Bool
  failed : Bool
  deriving DecidableEq

namespace Pipe

def empty (capacity : Nat) : Pipe where
  capacity := capacity
  buffer := []
  pushed := 0
  popped := 0
  closed := false
  failed := false

def buffered (pipe : Pipe) : Nat :=
  pipe.buffer.length

def free (pipe : Pipe) : Nat :=
  pipe.capacity - pipe.buffered

-- A pipe accepts what fits, and nothing once it is closed.
def accepted (pipe : Pipe) (bytes : List UInt8) : List UInt8 :=
  if pipe.closed then [] else bytes.take pipe.free

def push (pipe : Pipe) (bytes : List UInt8) : Pipe :=
  let taken := pipe.accepted bytes
  { pipe with
    buffer := pipe.buffer ++ taken
    pushed := pipe.pushed + taken.length }

-- No further byte will be accepted. There is no way back.
def close (pipe : Pipe) : Pipe :=
  { pipe with closed := true }

-- Marks the stream as broken. There is no way back.
def fail (pipe : Pipe) : Pipe :=
  { pipe with failed := true }

-- Discards the first bytes, all of them when there are fewer than `count`.
def pop (pipe : Pipe) (count : Nat) : Pipe :=
  { pipe with
    buffer := pipe.buffer.drop count
    popped := pipe.popped + min count pipe.buffered }

def peek (pipe : Pipe) : List UInt8 :=
  pipe.buffer

-- Takes up to `count` bytes through a view that shows some front part of the buffer.
-- Each piece is popped before the next look, until the view shows nothing.
def readThrough (view : List UInt8 → List UInt8) (pipe : Pipe) (count : Nat) :
    List UInt8 × Pipe :=
  let piece := (view pipe.buffer).take count
  if piece.length = 0 then ([], pipe)
  else
    let rest := (pipe.pop piece.length).readThrough view (count - piece.length)
    (piece ++ rest.1, rest.2)
termination_by count
decreasing_by
  rename_i hpiece
  have hle := List.length_take_le count (view pipe.buffer)
  change ¬ ((view pipe.buffer).take count).length = 0 at hpiece
  omega

def read (pipe : Pipe) (count : Nat) : List UInt8 × Pipe :=
  pipe.readThrough id count

def drained (pipe : Pipe) : Bool :=
  pipe.closed && pipe.buffer.isEmpty

-- What one operation does to a pipe, and what it hands back.
inductive Op where
  | push (bytes : List UInt8)
  | close
  | fail
  | pop (count : Nat)
  | read (count : Nat)
  | peek

def apply (pipe : Pipe) : Op → List UInt8 × Pipe
  | .push bytes => ([], pipe.push bytes)
  | .close => ([], pipe.close)
  | .fail => ([], pipe.fail)
  | .pop count => ([], pipe.pop count)
  | .read count => pipe.read count
  | .peek => (pipe.peek, pipe)

end Pipe

end UserTcp
