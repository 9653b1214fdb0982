import UserTcp.Proofs.Reassembly.Insert
import Mathlib.Data.Nat.PSub

namespace UserTcp

-- The bytes from one position up to another, if these lie in this order and inside the list.
def slice? (bytes : List UInt8) (first last : Nat) : Option (List UInt8) :=
  if first ≤ last ∧ last ≤ bytes.length then some ((bytes.drop first).take (last - first)) else none

theorem slice?_eq (bytes : List UInt8) (first last : Nat) (horder : first ≤ last)
    (hlast : last ≤ bytes.length) :
    slice? bytes first last = some ((bytes.drop first).take (last - first)) :=
  if_pos ⟨horder, hlast⟩

-- Pushing, with a look whether there is room for all of the bytes.
def Pipe.pushWhole? (pipe : Pipe) (bytes : List UInt8) : Option Pipe :=
  if pipe.closed = false ∧ bytes.length ≤ pipe.free then some (pipe.push bytes) else none

-- Continuing a run, with a look whether the later one begins early enough and has the bytes.
def Run.extend? (run later : Run) : Option Run :=
  if run.stop < later.stop then
    (run.stop.psub later.start).bind fun first =>
      (slice? later.bytes first later.bytes.length).map fun more =>
        { run with bytes := run.bytes ++ more }
  else some run

theorem Run.extend?_eq (run later : Run) (htouch : later.start ≤ run.stop) :
    run.extend? later = some (run.extend later) := by
  have hlength : later.stop = later.start + later.bytes.length := rfl
  unfold extend? extend
  split
  · rw [Nat.psub_eq_sub htouch, Option.bind_some, slice?_eq _ _ _ (by omega) (Nat.le_refl _),
      Option.map_some, List.take_of_length_le (Nat.le_of_eq List.length_drop)]
  · -- the later run has nothing past the end of this one
    rw [List.drop_of_length_le (by omega), List.append_nil]

namespace Held

-- The same as without the question mark, with a look before each subtraction whether it stays
-- above zero and before each cut whether the bytes are there.
def gather? (run : Run) : List Run → Nat → Option Held
  | [], count => some ⟨[run], count + run.bytes.length⟩
  | next :: rest, count =>
      if next.start ≤ run.stop then
        (count.psub next.bytes.length).bind fun left =>
          (run.extend? next).bind fun longer => gather? longer rest left
      else some ⟨run :: next :: rest, count + run.bytes.length⟩

def place? (run : Run) : List Run → Nat → Option Held
  | [], count => gather? run [] count
  | first :: rest, count =>
      if first.stop < run.start then
        (place? run rest count).map fun held => { held with runs := first :: held.runs }
      else if run.start < first.start then gather? run (first :: rest) count
      else if run.stop ≤ first.stop then some ⟨first :: rest, count⟩
      else
        (count.psub first.bytes.length).bind fun left =>
          (first.extend? run).bind fun longer => gather? longer rest left

def store? (held : Held) (run : Run) : Option Held :=
  place? run held.runs held.count

theorem gather?_eq (run : Run) (runs : List Run) (count : Nat) (hcount : total runs ≤ count) :
    gather? run runs count = some (gather run runs count) := by
  fun_induction gather run runs count with
  | case1 run count => rfl
  | case2 run next rest count htouch ih =>
      rw [total_cons] at hcount
      rw [gather?, if_pos htouch, Nat.psub_eq_sub (by omega), Option.bind_some,
        Run.extend?_eq run next htouch, Option.bind_some]
      exact ih (by omega)
  | case3 run next rest count htouch => rw [gather?, if_neg htouch]

theorem place?_eq (run : Run) (runs : List Run) (count : Nat) (hcount : total runs ≤ count) :
    place? run runs count = some (place run runs count) := by
  fun_induction place run runs count with
  | case1 count => exact gather?_eq run [] count hcount
  | case2 first rest count hbefore held ih =>
      rw [total_cons] at hcount
      rw [place?, if_pos hbefore, ih (by omega), Option.map_some]
  | case3 first rest count hbefore hahead =>
      rw [place?, if_neg hbefore, if_pos hahead, gather?_eq run _ count hcount]
  | case4 first rest count hbefore hahead hinside =>
      rw [place?, if_neg hbefore, if_neg hahead, if_pos hinside]
  | case5 first rest count hbefore hahead hinside =>
      rw [total_cons] at hcount
      rw [place?, if_neg hbefore, if_neg hahead, if_neg hinside, Nat.psub_eq_sub (by omega),
        Option.bind_some, Run.extend?_eq first run (by omega), Option.bind_some,
        gather?_eq _ rest _ (by omega)]

theorem store?_eq (held : Held) (run : Run) (hcount : held.count = total held.runs) :
    held.store? run = some (held.store run) :=
  place?_eq run held.runs held.count (Nat.le_of_eq hcount.symm)

end Held

namespace Reassembly

def releaseRuns? : List Run → Nat → Pipe → Option (Held × Pipe)
  | [], count, output => some (⟨[], count⟩, output)
  | run :: rest, count, output =>
      if run.start = output.pushed then
        (count.psub run.bytes.length).bind fun left =>
          (output.pushWhole? run.bytes).bind fun longer => releaseRuns? rest left longer
      else some (⟨run :: rest, count⟩, output)

def clip? (reassembly : Reassembly) (piece : Run) : Option Run :=
  let start := max piece.start reassembly.expected
  let stop := min piece.stop reassembly.limit
  if start < stop then
    (start.psub piece.start).bind fun first =>
      (stop.psub piece.start).bind fun last =>
        (slice? piece.bytes first last).map fun bytes => ⟨start, bytes⟩
  else some ⟨start, []⟩

def accept? (reassembly : Reassembly) (piece : Run) : Option Reassembly :=
  (reassembly.clip? piece).bind fun clipped =>
    if clipped.bytes = [] then some reassembly
    else
      (reassembly.held.store? clipped).bind fun held =>
        (releaseRuns? held.runs held.count reassembly.output).map fun released =>
          { reassembly with held := released.1, output := released.2 }

def insert? (reassembly : Reassembly) (piece : Run) (last : Bool) : Option Reassembly :=
  if reassembly.admits piece then
    ((reassembly.noteFinal piece last).accept? piece).map closeAtFinal
  else some reassembly

-- What is held has room in the output, so it goes out whole.
theorem releaseRuns?_eq (runs : List Run) (count : Nat) (output : Pipe)
    (hcount : Held.total runs ≤ count) (hopen : output.closed = false)
    (hroom : ∀ run ∈ runs, run.stop ≤ output.pushed + output.free) :
    releaseRuns? runs count output = some (releaseRuns runs count output) := by
  fun_induction releaseRuns runs count output with
  | case1 count output => rfl
  | case2 run rest count output hstart ih =>
      obtain ⟨hrun, hrest⟩ := List.forall_mem_cons.mp hroom
      rw [Held.total_cons] at hcount
      have hfits : run.bytes.length ≤ output.free := by
        simp only [Run.stop] at hrun
        omega
      -- a push moves the end of the bytes up and takes the same from the room
      have hlimit : (output.push run.bytes).pushed + (output.push run.bytes).free =
          output.pushed + output.free := by
        simp only [Pipe.push, output.accepted_of_fits run.bytes hopen hfits, Pipe.free,
          Pipe.buffered, List.length_append] at *
        omega
      rw [releaseRuns?, if_pos hstart, Nat.psub_eq_sub (by omega), Option.bind_some,
        Pipe.pushWhole?, if_pos ⟨hopen, hfits⟩, Option.bind_some]
      exact ih (by omega) hopen (by rwa [hlimit])
  | case3 run rest count output hstart => rw [releaseRuns?, if_neg hstart]

theorem clip?_eq (reassembly : Reassembly) (piece : Run) :
    reassembly.clip? piece = some (reassembly.clip piece) := by
  have hlength : piece.stop = piece.start + piece.bytes.length := rfl
  simp only [clip?, clip]
  split
  · rename_i hsome
    have hwidth : min piece.stop reassembly.limit - piece.start -
        (max piece.start reassembly.expected - piece.start) =
          min piece.stop reassembly.limit - max piece.start reassembly.expected := by omega
    rw [Nat.psub_eq_sub (by omega), Option.bind_some, Nat.psub_eq_sub (by omega),
      Option.bind_some, slice?_eq _ _ _ (by omega) (by omega), Option.map_some, hwidth]
  · rename_i hnone
    rw [Nat.sub_eq_zero_of_le (Nat.le_of_not_lt hnone), List.take_zero]

theorem Intact.accept?_eq {reassembly : Reassembly} {history : List UInt8}
    (hintact : reassembly.Intact history) (hopen : reassembly.output.closed = false)
    (piece : Run) : reassembly.accept? piece = some (reassembly.accept piece) := by
  simp only [Reassembly.accept?, Reassembly.accept, clip?_eq, Option.bind_some]
  split
  · rfl
  · rename_i hne
    have hstored := hintact.toStored.store piece hne
    have hreleased := releaseRuns?_eq (reassembly.held.store (reassembly.clip piece)).runs _
      reassembly.output (Nat.le_of_eq hstored.count_eq.symm) hopen hstored.stop_le
    rw [Held.store?_eq _ _ hintact.count_eq, Option.bind_some, hreleased]
    rfl

-- In a reassembly that is intact no count goes below zero, no cut goes past the bytes, and the
-- output has room for all that goes out.
theorem Intact.insert?_eq {reassembly : Reassembly} {history : List UInt8}
    (hintact : reassembly.Intact history) (piece : Run) (last : Bool) :
    reassembly.insert? piece last = some (reassembly.insert piece last) := by
  unfold Reassembly.insert? Reassembly.insert
  split
  · rename_i hadmits
    have hnoted : (reassembly.noteFinal piece last).Intact history :=
      hintact.of_output_held (output_noteFinal _ _ _) (held_noteFinal _ _ _)
    have hopen : (reassembly.noteFinal piece last).output.closed = false := by
      rw [output_noteFinal]
      exact ((admits_iff reassembly piece).mp hadmits).1
    rw [hnoted.accept?_eq hopen, Option.map_some]
  · rfl

end Reassembly

end UserTcp
