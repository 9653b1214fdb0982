import UserTcp.Proofs.Pipe.Carries

namespace UserTcp.Pipe

-- Meanwhile some bytes have come into a pipe and some have left it. Those that have left are the
-- front of what was there before and what came behind it, and the rest is there.
structure Passes (before after : Pipe) (entered left : List UInt8) : Prop where
  buffer_eq : left ++ after.buffer = before.buffer ++ entered
  pushed_eq : after.pushed = before.pushed + entered.length
  popped_eq : after.popped = before.popped + left.length

namespace Passes

variable {first second third : Pipe} {entered left moreEntered moreLeft : List UInt8}

theorem refl (pipe : Pipe) : pipe.Passes pipe [] [] where
  buffer_eq := (List.append_nil _).symm
  pushed_eq := rfl
  popped_eq := rfl

theorem trans (hfirst : first.Passes second entered left)
    (hsecond : second.Passes third moreEntered moreLeft) :
    first.Passes third (entered ++ moreEntered) (left ++ moreLeft) where
  buffer_eq := by
    rw [List.append_assoc, hsecond.buffer_eq, ← List.append_assoc, hfirst.buffer_eq,
      List.append_assoc]
  pushed_eq := by
    rw [hsecond.pushed_eq, hfirst.pushed_eq, List.length_append, Nat.add_assoc]
  popped_eq := by
    rw [hsecond.popped_eq, hfirst.popped_eq, List.length_append, Nat.add_assoc]

end Passes

theorem passes_push (pipe : Pipe) (bytes : List UInt8) :
    pipe.Passes (pipe.push bytes) (pipe.accepted bytes) [] :=
  ⟨rfl, rfl, rfl⟩

theorem passes_close (pipe : Pipe) : pipe.Passes pipe.close [] [] :=
  ⟨(List.append_nil _).symm, rfl, rfl⟩

theorem passes_fail (pipe : Pipe) : pipe.Passes pipe.fail [] [] :=
  ⟨(List.append_nil _).symm, rfl, rfl⟩

theorem passes_pop (pipe : Pipe) (count : Nat) :
    pipe.Passes (pipe.pop count) [] (pipe.buffer.take count) where
  buffer_eq := by
    rw [List.append_nil]
    exact List.take_append_drop count pipe.buffer
  pushed_eq := rfl
  popped_eq := by
    rw [List.length_take]
    rfl

-- A read of all that is there leaves nothing.
theorem passes_read (pipe : Pipe) :
    pipe.Passes (pipe.read pipe.buffered).2 [] (pipe.read pipe.buffered).1 := by
  rw [read_eq]
  exact pipe.passes_pop pipe.buffered

theorem buffer_read (pipe : Pipe) : (pipe.read pipe.buffered).2.buffer = [] := by
  rw [read_eq]
  exact List.drop_length

end UserTcp.Pipe
