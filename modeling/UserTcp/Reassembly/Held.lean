namespace UserTcp

-- A contiguous run of bytes that begins at a stream index.
structure Run where
  start : Nat
  bytes : List UInt8
  deriving DecidableEq

namespace Run

def stop (run : Run) : Nat :=
  run.start + run.bytes.length

-- Continues a run with what a later one holds past its end. Where the two overlap, the
-- bytes of `run` stay.
def extend (run later : Run) : Run :=
  { run with bytes := run.bytes ++ later.bytes.drop (run.stop - later.start) }

end Run

-- The runs that wait for a gap before them to fill, in order of their start, with a
-- running count of their bytes. Two runs never overlap and never touch.
structure Held where
  runs : List Run
  count : Nat
  deriving DecidableEq

namespace Held

def empty : Held where
  runs := []
  count := 0

-- Puts a run in front of `runs`, all of which start after it. Those that start inside
-- it or right at its end become part of it and leave the count.
def gather (run : Run) : List Run → Nat → Held
  | [], count => ⟨[run], count + run.bytes.length⟩
  | next :: rest, count =>
      if next.start ≤ run.stop then gather (run.extend next) rest (count - next.bytes.length)
      else ⟨run :: next :: rest, count + run.bytes.length⟩

-- Adds a run. The last run that starts at or before it keeps its bytes when the two
-- overlap or touch. Over all later runs the new bytes win.
def place (run : Run) : List Run → Nat → Held
  | [], count => gather run [] count
  | first :: rest, count =>
      if first.stop < run.start then
        let held := place run rest count
        { held with runs := first :: held.runs }
      else if run.start < first.start then gather run (first :: rest) count
      else if run.stop ≤ first.stop then ⟨first :: rest, count⟩
      else gather (first.extend run) rest (count - first.bytes.length)

def store (held : Held) (run : Run) : Held :=
  place run held.runs held.count

end Held

end UserTcp
