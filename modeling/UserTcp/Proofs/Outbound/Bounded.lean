import UserTcp.Proofs.Outbound.Fits
import UserTcp.Proofs.Outbound.Portions

namespace UserTcp.Outbound

-- A sender with all that bounds its chunks: what it puts into one at most, what its stream holds at
-- most, and for how much a receiver can have room.
structure Bounded (outbound : Outbound) (limit capacity room : Nat) : Prop
    extends Portioned outbound limit, Fits outbound room where
  capacity_eq : outbound.input.capacity = capacity
  carries : ∃ stream, outbound.input.Carries stream
  stocked : ∀ flight ∈ outbound.flights, flight.chunk.payload.length ≤ capacity

theorem bounded_ofInput (capacity : Nat) (initial : SeqNo) (timeout : Millis) (limit room : Nat) :
    (ofInput (Pipe.empty capacity) initial timeout limit).Bounded limit capacity room where
  toPortioned := portioned_ofInput _ initial timeout (Nat.le_refl limit)
  toFits := fits_ofInput _ initial timeout limit room
  capacity_eq := rfl
  carries := ⟨[], Pipe.carries_empty capacity⟩
  stocked := fun _ hmem => absurd hmem List.not_mem_nil

namespace Bounded

variable {outbound : Outbound} {limit capacity room : Nat}

-- The smallest of the bounds counts.
theorem payload_le_min (hbounded : outbound.Bounded limit capacity room) {flight : Flight}
    (hmem : flight ∈ outbound.flights) :
    flight.chunk.payload.length ≤ min limit (min capacity (max room 1)) := by
  have hlimit := hbounded.payload_le flight hmem
  have hstocked := hbounded.stocked flight hmem
  have hspan := hbounded.span_le flight hmem
  unfold Chunk.span at hspan
  omega

protected theorem launch (hbounded : outbound.Bounded limit capacity room)
    (hroom : outbound.inFlight < outbound.usableWindow)
    (hspan : 0 < (outbound.cut outbound.usableWindow).1.span) :
    (outbound.launch (outbound.cut outbound.usableWindow).1
      (outbound.cut outbound.usableWindow).2).Bounded limit capacity room where
  toPortioned := hbounded.toPortioned.launch _ hspan
  toFits := hbounded.toFits.launch hroom
  capacity_eq := by
    rw [cut_eq]
    exact hbounded.capacity_eq
  carries := by
    obtain ⟨stream, hcarries⟩ := hbounded.carries
    rw [cut_eq]
    exact ⟨stream, hcarries.pop _⟩
  stocked := by
    intro flight hmem
    rcases List.mem_append.mp hmem with hmem | hmem
    · exact hbounded.stocked flight hmem
    · obtain ⟨stream, hcarries⟩ := hbounded.carries
      have htaken := List.length_take_le' (outbound.taking outbound.usableWindow)
        outbound.input.buffer
      have hbuffered := hcarries.buffered_le
      rw [hbounded.capacity_eq] at hbuffered
      rw [List.mem_singleton.mp hmem, cut_eq]
      exact Nat.le_trans htaken hbuffered

protected theorem send (hbounded : outbound.Bounded limit capacity room) :
    outbound.send.1.Bounded limit capacity room := by
  have hfill := fill_keeps
    (fun after => after.Bounded limit capacity room ∧ after.usableWindow = outbound.usableWindow)
    outbound.usableWindow ?_ outbound ⟨hbounded, rfl⟩
  · exact hfill.1
  · rintro before ⟨hbefore, hwindow⟩ hroom - hspan
    rw [← hwindow] at hroom hspan ⊢
    exact ⟨hbefore.launch hroom hspan, rfl⟩

theorem settle (hbounded : outbound.Bounded limit capacity room) {after : Outbound} {ack : Nat}
    (hsettles : Settles outbound after ack) (hbalanced : after.Balanced)
    (hwindow : after.window.toNat ≤ max room 1) : after.Bounded limit capacity room where
  toPortioned := hbounded.toPortioned.settle hsettles hbalanced
  toFits := hbounded.toFits.settle hsettles hwindow
  capacity_eq := by
    rcases hsettles.input_eq with heq | heq
    · rw [heq]
      exact hbounded.capacity_eq
    · rw [heq]
      exact hbounded.capacity_eq
  carries := hbounded.carries.elim fun stream hcarries => ⟨stream, hsettles.carries hcarries⟩
  stocked := fun flight hmem => hbounded.stocked flight (hsettles.flights_suffix.subset hmem)

protected theorem elapse (hbounded : outbound.Bounded limit capacity room) (time : Millis) :
    (outbound.elapse time).1.Bounded limit capacity room :=
  hbounded.settle (settles_elapse hbounded.tiles time) (hbounded.toBalanced.elapse time) (by
    rw [window_elapse]
    exact hbounded.window_le)

protected theorem receive (hbounded : outbound.Bounded limit capacity room) (feedback : Feedback)
    (hwindow : feedback.window.toNat ≤ room) :
    (outbound.receive feedback).Bounded limit capacity room :=
  hbounded.settle (settles_receive hbounded.tiles hbounded.inFlight_le feedback)
    (hbounded.toBalanced.receive feedback) (by
      rw [window_receive]
      exact Nat.le_trans hwindow (Nat.le_max_left room 1))

-- Whatever is done with the stream, it never holds more than it has room for.
protected theorem apply (hbounded : outbound.Bounded limit capacity room) (op : Pipe.Op) :
    { outbound with input := (outbound.input.apply op).2 }.Bounded limit capacity room where
  toPortioned := hbounded.toPortioned.after (.input op)
  toFits := hbounded.toFits.mapInput _
  capacity_eq := (outbound.input.capacity_apply op).trans hbounded.capacity_eq
  carries := hbounded.carries.elim fun _ hcarries => ⟨_, hcarries.apply op⟩
  stocked := hbounded.stocked

end Bounded

end UserTcp.Outbound
