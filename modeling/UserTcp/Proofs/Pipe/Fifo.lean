import UserTcp.Proofs.Pipe.Passes

namespace UserTcp.Pipe

-- A read that looks into the buffer again and again, each time through another view, as long as
-- something is wanted and shown. It comes to nothing if it is not over after so many pieces.
def readWithin (views : Nat → List UInt8 → List UInt8) (pipe : Pipe) (count : Nat) :
    Nat → Option (List UInt8 × Pipe)
  | 0 => if (views 0 pipe.buffer).take count = [] then some ([], pipe) else none
  | pieces + 1 =>
      let piece := (views 0 pipe.buffer).take count
      if piece = [] then some ([], pipe)
      else
        ((pipe.pop piece.length).readWithin (fun look => views (look + 1))
          (count - piece.length) pieces).map fun rest => (piece ++ rest.1, rest.2)

-- Every piece has a byte at least, so there are no more pieces than bytes to take.
theorem readWithin_eq_read (views : Nat → List UInt8 → List UInt8)
    (hviews : ∀ look, Front (views look)) (pipe : Pipe) (count pieces : Nat)
    (henough : min count pipe.buffered ≤ pieces) :
    pipe.readWithin views count pieces = some (pipe.read count) := by
  induction pieces generalizing views pipe count with
  | zero =>
      have hnothing : pipe.buffer.take count = [] := by
        rw [← List.length_eq_zero_iff, List.length_take]
        exact Nat.le_zero.mp henough
      rw [readWithin, if_pos (((hviews 0).take_eq_nil_iff _ _).mpr hnothing), read_eq, hnothing,
        pop_of_take_eq_nil hnothing]
  | succ pieces ih =>
      rw [readWithin]
      have hlength := List.length_take_le count (views 0 pipe.buffer)
      split
      · rename_i hstop
        have hnothing := ((hviews 0).take_eq_nil_iff _ _).mp hstop
        rw [read_eq, hnothing, pop_of_take_eq_nil hnothing]
      · rename_i hpiece
        have hpos := List.length_pos_iff.mpr hpiece
        rw [ih _ (fun look => hviews (look + 1)), read_eq, read_eq, pop_pop,
          Nat.add_sub_cancel' hlength, Option.map_some]
        · exact congrArg (fun bytes => some (bytes, _))
            ((hviews 0).take_append_take pipe.buffer count)
        · simp only [pop, buffered, List.length_drop] at henough ⊢
          omega

def Op.closes : Op → Bool
  | .close => true
  | _ => false

def applyAll (pipe : Pipe) (ops : List Op) : Pipe :=
  ops.foldl (fun pipe op => (pipe.apply op).2) pipe

-- All the bytes that a pipe accepts in the course of some operations, and all that leave it.
def accepts (pipe : Pipe) : List Op → List UInt8
  | [] => []
  | op :: rest => op.added pipe ++ (pipe.apply op).2.accepts rest

def releases (pipe : Pipe) : List Op → List UInt8
  | [] => []
  | op :: rest => op.removed pipe ++ (pipe.apply op).2.releases rest

theorem passes_apply (pipe : Pipe) (op : Op) :
    pipe.Passes (pipe.apply op).2 (op.added pipe) (op.removed pipe) := by
  cases op with
  | push bytes => exact pipe.passes_push bytes
  | close => exact pipe.passes_close
  | fail => exact pipe.passes_fail
  | pop count => exact pipe.passes_pop count
  | read count =>
      rw [apply, Op.removed, read_eq]
      exact pipe.passes_pop count
  | peek => exact .refl pipe

theorem passes_applyAll (pipe : Pipe) (ops : List Op) :
    pipe.Passes (pipe.applyAll ops) (pipe.accepts ops) (pipe.releases ops) := by
  induction ops generalizing pipe with
  | nil => exact .refl pipe
  | cons op rest ih => exact (pipe.passes_apply op).trans (ih _)

theorem Carries.applyAll {pipe : Pipe} {stream : List UInt8} (hcarries : pipe.Carries stream)
    (ops : List Op) : (pipe.applyAll ops).Carries (stream ++ pipe.accepts ops) := by
  induction ops generalizing pipe stream with
  | nil =>
      rw [accepts, List.append_nil]
      exact hcarries
  | cons op rest ih =>
      rw [accepts, ← List.append_assoc]
      exact ih (hcarries.apply op)

theorem capacity_applyAll (pipe : Pipe) (ops : List Op) :
    (pipe.applyAll ops).capacity = pipe.capacity :=
  List.foldlRecOn (motive := fun (after : Pipe) => after.capacity = pipe.capacity) ops _ rfl
    fun _ hbefore op _ => (capacity_apply _ op).trans hbefore

theorem closed_applyAll (pipe : Pipe) (ops : List Op) :
    (pipe.applyAll ops).closed = (pipe.closed || ops.any Op.closes) := by
  induction ops generalizing pipe with
  | nil => exact (Bool.or_false _).symm
  | cons op rest ih =>
      have hop : (pipe.apply op).2.closed = (pipe.closed || op.closes) := by
        cases op with
        | close => exact (Bool.or_true _).symm
        | read count => rw [apply, read_eq]; exact (Bool.or_false _).symm
        | _ => exact (Bool.or_false _).symm
      rw [List.any_cons, ← Bool.or_assoc, ← hop]
      exact ih _

-- A pipe hands over what it accepts, in order: after any operations its buffer is what it accepted
-- without what has left it, both totals count that, and it never holds more than its capacity. What
-- fits is accepted until the pipe is closed. A read takes the front of the buffer and comes to its
-- end wherever the pieces end that it is shown.
theorem hands_over_in_order (capacity : Nat) (ops : List Op) :
    let pipe := (empty capacity).applyAll ops
    let stream := (empty capacity).accepts ops
    pipe.buffer = stream.drop pipe.popped ∧ pipe.pushed = stream.length ∧
      pipe.popped ≤ pipe.pushed ∧ pipe.buffered = pipe.pushed - pipe.popped ∧
      pipe.buffered ≤ capacity ∧ (empty capacity).releases ops = stream.take pipe.popped ∧
      (∀ bytes, pipe.accepted bytes =
        if ops.any Op.closes then []
        else bytes.take (min bytes.length (capacity - pipe.buffered))) ∧
      ∀ count,
        pipe.read count = (pipe.buffer.take (min count pipe.buffered), pipe.pop count) ∧
          (∀ view, Front view → pipe.readThrough view count = pipe.read count) ∧
          ∀ views, (∀ look, Front (views look)) → ∀ pieces, min count pipe.buffered ≤ pieces →
            pipe.readWithin views count pieces = some (pipe.read count) := by
  intro pipe stream
  have hcarries : pipe.Carries stream := (carries_empty capacity).applyAll ops
  have hpasses : (empty capacity).Passes pipe stream ((empty capacity).releases ops) :=
    (empty capacity).passes_applyAll ops
  have hcapacity : pipe.capacity = capacity := (empty capacity).capacity_applyAll ops
  have hclosed : pipe.closed = ops.any Op.closes := (empty capacity).closed_applyAll ops
  refine ⟨hcarries.buffer_eq, hcarries.pushed_eq, ?_, hcarries.buffered_eq, ?_, ?_, fun bytes => ?_,
    fun count => ⟨?_, fun view hview => ?_, fun views hviews pieces henough => ?_⟩⟩
  · rw [hcarries.pushed_eq]
    exact hcarries.popped_le
  · exact hcapacity ▸ hcarries.buffered_le
  · have hleft : pipe.popped = ((empty capacity).releases ops).length :=
      hpasses.popped_eq.trans (Nat.zero_add _)
    have hstream : (empty capacity).releases ops ++ pipe.buffer = stream := hpasses.buffer_eq
    rw [hleft, ← hstream, List.take_left]
  · rw [accepted, hclosed, free, hcapacity, Nat.min_comm, ← List.take_eq_take_min]
  · rw [read_eq, buffered, ← List.take_eq_take_min]
  · rw [readThrough_eq view hview, read_eq]
  · exact readWithin_eq_read views hviews pipe count pieces henough

-- Three bytes are read in three looks when each shows one of them, and not in two.
example :
    let pipe := ((empty 4).push [1, 2, 3, 4]).pop 1
    let views := fun _ => List.take 1
    pipe.readWithin views 9 3 = some ([2, 3, 4], pipe.pop 3) ∧ pipe.readWithin views 9 2 = none := by
  decide

end UserTcp.Pipe
