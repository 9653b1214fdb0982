import UserTcp.Proofs.Outbound.Fits
import UserTcp.Proofs.Outbound.Progress

namespace UserTcp.Outbound

variable {outbound : Outbound}

-- An acknowledgment moves the first number in flight and ends the count, or does neither.
theorem Balanced.counted_acknowledge (hbalanced : outbound.Balanced) (ack : Nat) :
    (outbound.acknowledge ack).base = outbound.base ∧
        (outbound.acknowledge ack).retransmissions = outbound.retransmissions ∨
      outbound.base < (outbound.acknowledge ack).base ∧
        (outbound.acknowledge ack).retransmissions = 0 := by
  cases hflights : outbound.flights with
  | nil =>
      left
      simp only [acknowledge, hflights, forget, List.length_nil, Nat.lt_irrefl, ↓reduceIte,
        and_self]
  | cons oldest rest =>
      by_cases hcovered : oldest.stop ≤ ack
      · right
        have hstop := outbound.stop_le_of_acknowledge hbalanced.tiles hbalanced.inFlight_le hflights
          ack hcovered
        have htiles := hbalanced.tiles
        rw [hflights] at htiles
        obtain ⟨hstart, hspan, -⟩ := htiles
        have hmoved : outbound.base < (outbound.acknowledge ack).base := by
          unfold base
          simp only [Flight.stop] at hstop
          omega
        refine ⟨hmoved, ?_⟩
        -- the count stays only where the flights and with them the first number stay
        simp only [acknowledge] at hmoved ⊢
        split
        · rfl
        · rename_i hall
          rw [if_neg hall] at hmoved
          exact absurd hmoved (Nat.lt_irrefl _)
      · left
        have hhead : outbound.flights.head? = some oldest := by rw [hflights]; rfl
        rw [outbound.acknowledge_of_lt hhead (Nat.lt_of_not_le hcovered)]
        exact ⟨rfl, rfl⟩

theorem Balanced.counted_receive (hbalanced : outbound.Balanced) (feedback : Feedback) :
    (outbound.receive feedback).base = outbound.base ∧
        (outbound.receive feedback).retransmissions = outbound.retransmissions ∨
      outbound.base < (outbound.receive feedback).base ∧
        (outbound.receive feedback).retransmissions = 0 := by
  have hwindow : { outbound with window := feedback.window }.Balanced :=
    ⟨⟨hbalanced.running_iff, hbalanced.settled⟩, hbalanced.inFlight_le, hbalanced.tiles,
      hbalanced.unsent⟩
  simp only [receive]
  split
  · exact .inl ⟨rfl, rfl⟩
  · split
    · split <;> exact .inl ⟨rfl, rfl⟩
    · split
      · exact .inl ⟨rfl, rfl⟩
      · exact hwindow.counted_acknowledge _

theorem unbroken_after (hbalanced : outbound.Balanced) (hunbroken : outbound.Unbroken)
    (event : Event) : (outbound.after event).Unbroken := by
  cases event with
  | send => exact hunbroken.send
  | receive feedback =>
      exact hunbroken.settle (settles_receive hbalanced.tiles hbalanced.inFlight_le feedback)
  | elapse time => exact hunbroken.settle (settles_elapse hbalanced.tiles time)
  | input op => exact hunbroken.apply op

end UserTcp.Outbound
