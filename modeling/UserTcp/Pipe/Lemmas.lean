import UserTcp.Pipe.Basic

namespace UserTcp.Pipe

@[simp] theorem pop_zero (pipe : Pipe) : pipe.pop 0 = pipe := by
  simp [pop]

theorem pop_of_empty (pipe : Pipe) (count : Nat) (hempty : pipe.buffer = []) :
    pipe.pop count = pipe := by
  cases pipe
  simp only at hempty
  simp [pop, buffered, hempty]

theorem pop_pop (pipe : Pipe) (first second : Nat) :
    (pipe.pop first).pop second = pipe.pop (first + second) := by
  simp only [pop, buffered, List.drop_drop, List.length_drop, Pipe.mk.injEq, true_and, and_true]
  omega

-- A view shows a front part of the buffer, and something unless the buffer is empty.
structure Front (view : List UInt8 → List UInt8) : Prop where
  initial : ∀ bytes, view bytes <+: bytes
  progress : ∀ bytes, bytes ≠ [] → view bytes ≠ []

theorem front_id : Front id where
  initial := fun bytes => List.prefix_refl bytes
  progress := fun _ h => h

-- A look shows nothing of what is asked for only if nothing is asked for or nothing is there.
theorem Front.take_eq_nil_iff {view : List UInt8 → List UInt8} (hview : Front view)
    (bytes : List UInt8) (count : Nat) : (view bytes).take count = [] ↔ bytes.take count = [] := by
  rw [List.take_eq_nil_iff, List.take_eq_nil_iff]
  refine or_congr_right ⟨fun hnothing => ?_, fun hempty => ?_⟩
  · exact Classical.byContradiction fun hne => hview.progress bytes hne hnothing
  · rw [hempty]
    exact List.prefix_nil.mp (hview.initial [])

-- What a look shows and what is taken of the rest make up what is taken of all.
theorem Front.take_append_take {view : List UInt8 → List UInt8} (hview : Front view)
    (bytes : List UInt8) (count : Nat) :
    let piece := (view bytes).take count
    piece ++ (bytes.drop piece.length).take (count - piece.length) = bytes.take count := by
  intro piece
  have hlength : piece.length ≤ count := List.length_take_le count (view bytes)
  obtain ⟨rest, hrest⟩ := (List.take_prefix count (view bytes)).trans (hview.initial bytes)
  change piece ++ rest = bytes at hrest
  rw [← hrest, List.drop_left, List.take_append, List.take_of_length_le hlength]

theorem pop_of_take_eq_nil {pipe : Pipe} {count : Nat} (hnothing : pipe.buffer.take count = []) :
    pipe.pop count = pipe := by
  rcases List.take_eq_nil_iff.mp hnothing with rfl | hempty
  · exact pipe.pop_zero
  · exact pipe.pop_of_empty count hempty

-- Reading through any view takes the front of the buffer: where the pieces end does
-- not show in the result.
theorem readThrough_eq (view : List UInt8 → List UInt8) (hview : Front view) (pipe : Pipe)
    (count : Nat) : pipe.readThrough view count = (pipe.buffer.take count, pipe.pop count) := by
  induction count using Nat.strongRecOn generalizing pipe with
  | _ count ih =>
      rw [readThrough]
      have hlength := List.length_take_le count (view pipe.buffer)
      split
      · rename_i hstop
        have hnothing := (hview.take_eq_nil_iff _ _).mp (List.length_eq_zero_iff.mp hstop)
        rw [hnothing, pop_of_take_eq_nil hnothing]
      · rw [ih _ (by omega), pop_pop, Nat.add_sub_cancel' hlength]
        exact congrArg (·, _) (hview.take_append_take pipe.buffer count)

theorem read_eq (pipe : Pipe) (count : Nat) :
    pipe.read count = (pipe.buffer.take count, pipe.pop count) :=
  readThrough_eq id front_id pipe count

theorem length_read_le (pipe : Pipe) (count : Nat) : (pipe.read count).1.length ≤ count := by
  rw [read_eq]
  exact List.length_take_le count pipe.buffer

end UserTcp.Pipe
