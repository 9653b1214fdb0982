import UserTcp.Proofs.Outbound.Settles

namespace UserTcp.Outbound

-- No more is ever in a chunk than a receiver with this much room has granted.
structure Fits (outbound : Outbound) (room : Nat) : Prop where
  window_le : outbound.window.toNat ≤ max room 1
  span_le : ∀ flight ∈ outbound.flights, flight.chunk.span ≤ max room 1

-- A sender whose stream is whole has sent no chunk that says otherwise.
def Unbroken (outbound : Outbound) : Prop :=
  outbound.input.failed = false → ∀ flight ∈ outbound.flights, flight.chunk.rst = false

theorem window_acknowledge (outbound : Outbound) (ack : Nat) :
    (outbound.acknowledge ack).window = outbound.window := by
  simp only [acknowledge]
  split <;> rfl

@[simp] theorem window_receive (outbound : Outbound) (feedback : Feedback) :
    (outbound.receive feedback).window = feedback.window := by
  simp only [receive]
  split
  · rfl
  · split
    · split <;> rfl
    · split
      · rfl
      · exact window_acknowledge _ _

@[simp] theorem window_elapse (outbound : Outbound) (time : Millis) :
    (outbound.elapse time).1.window = outbound.window := by
  obtain ⟨alarm, retransmissions, heq⟩ := outbound.elapse_eq time
  rw [heq]

variable {outbound : Outbound} {room : Nat}

theorem fits_ofInput (input : Pipe) (initial : SeqNo) (timeout : Millis) (payloadLimit : Nat)
    (room : Nat) : (ofInput input initial timeout payloadLimit).Fits room where
  window_le := Nat.le_max_right room 1
  span_le := fun _ hmem => absurd hmem List.not_mem_nil

namespace Fits

protected theorem launch (hfits : outbound.Fits room)
    (hroom : outbound.inFlight < outbound.usableWindow) :
    (outbound.launch (outbound.cut outbound.usableWindow).1
      (outbound.cut outbound.usableWindow).2).Fits room where
  window_le := hfits.window_le
  span_le := by
    intro flight hmem
    rcases List.mem_append.mp hmem with hmem | hmem
    · exact hfits.span_le flight hmem
    · have hspan := outbound.span_cut_le _ hroom
      have hwindow := hfits.window_le
      rw [List.mem_singleton.mp hmem]
      unfold usableWindow at hspan ⊢
      simp only
      omega

protected theorem send (hfits : outbound.Fits room) : outbound.send.1.Fits room := by
  -- the window stays what it was all through the filling
  have hfill := fill_keeps
    (fun after => after.Fits room ∧ after.usableWindow = outbound.usableWindow)
    outbound.usableWindow ?_ outbound ⟨hfits, rfl⟩
  · exact hfill.1
  · rintro before ⟨hbefore, hwindow⟩ hroom - -
    rw [← hwindow] at hroom ⊢
    exact ⟨hbefore.launch hroom, rfl⟩

theorem settle (hfits : outbound.Fits room) {after : Outbound} {ack : Nat}
    (hsettles : Settles outbound after ack) (hwindow : after.window.toNat ≤ max room 1) :
    after.Fits room where
  window_le := hwindow
  span_le := fun flight hmem => hfits.span_le flight (hsettles.flights_suffix.subset hmem)

theorem mapInput (hfits : outbound.Fits room) (input : Pipe) :
    { outbound with input := input }.Fits room :=
  ⟨hfits.window_le, hfits.span_le⟩

end Fits

namespace Unbroken

protected theorem launch (hunbroken : outbound.Unbroken) (window : Nat) :
    (outbound.launch (outbound.cut window).1 (outbound.cut window).2).Unbroken := by
  intro hwhole flight hmem
  have hinput : outbound.input.failed = false := by
    rw [cut_eq] at hwhole
    exact hwhole
  rcases List.mem_append.mp hmem with hmem | hmem
  · exact hunbroken hinput flight hmem
  · rw [List.mem_singleton.mp hmem]
    exact hinput

protected theorem send (hunbroken : outbound.Unbroken) : outbound.send.1.Unbroken :=
  fill_keeps Unbroken _ (fun _ hbefore _ _ _ => hbefore.launch _) outbound hunbroken

theorem settle (hunbroken : outbound.Unbroken) {after : Outbound} {ack : Nat}
    (hsettles : Settles outbound after ack) : after.Unbroken := by
  intro hwhole flight hmem
  refine hunbroken ?_ flight (hsettles.flights_suffix.subset hmem)
  rcases hsettles.input_eq with heq | heq
  · rwa [heq] at hwhole
  · rw [heq] at hwhole
    cases hwhole

protected theorem apply (hunbroken : outbound.Unbroken) (op : Pipe.Op) :
    { outbound with input := (outbound.input.apply op).2 }.Unbroken := fun hwhole =>
  hunbroken (outbound.input.failed_of_failed_apply op hwhole)

end Unbroken

end UserTcp.Outbound
