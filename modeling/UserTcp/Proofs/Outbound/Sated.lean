import UserTcp.Proofs.Outbound.Progress

namespace UserTcp.Outbound

variable {outbound : Outbound}

-- A sender that can do no more of its own: its window is full, its FIN is out, or its input has
-- nothing for it yet.
def Sated (outbound : Outbound) : Prop :=
  outbound.usableWindow ≤ outbound.inFlight ∨ outbound.finSent = true ∨
    outbound.input.buffer = [] ∧ outbound.input.closed = false

-- Something waits for its acknowledgment, and the alarm watches over it.
def Armed (outbound : Outbound) : Prop :=
  outbound.flights ≠ [] ∧ outbound.alarm.running = true

theorem sated_fill (outbound : Outbound) (window : Nat) (hlimit : 0 < outbound.payloadLimit) :
    window ≤ (outbound.fill window).1.inFlight ∨ (outbound.fill window).1.finSent = true ∨
      (outbound.fill window).1.input.buffer = [] ∧
        (outbound.fill window).1.input.closed = false := by
  fun_induction Outbound.fill outbound window with
  | case1 outbound hroom fresh hspan rest ih => exact ih hlimit
  | case2 outbound hroom fresh hspan =>
      -- an empty chunk is cut only where nothing is left to put into it
      have hnone : ¬ (outbound.input.buffer ≠ [] ∨ outbound.input.closed = true) := fun hleft =>
        hspan (outbound.span_cut_pos window hroom.1 hleft hlimit)
      rw [not_or, not_not, Bool.not_eq_true] at hnone
      exact .inr (.inr hnone)
  | case3 outbound hroom =>
      cases hfin : outbound.finSent with
      | true => exact .inr (.inl rfl)
      | false => exact .inl (Nat.le_of_not_lt fun hlt => hroom ⟨hlt, hfin⟩)

theorem sated_send (outbound : Outbound) (hlimit : 0 < outbound.payloadLimit) :
    outbound.send.1.Sated := by
  have hwindow : outbound.send.1.usableWindow = outbound.usableWindow :=
    congrArg (fun window => max window.toNat 1) outbound.window_send
  unfold Sated
  rw [hwindow]
  exact outbound.sated_fill outbound.usableWindow hlimit

theorem Sated.elapse (hsated : outbound.Sated) (time : Millis) :
    (outbound.elapse time).1.Sated := by
  obtain ⟨alarm, retransmissions, heq⟩ := outbound.elapse_eq time
  rw [heq]
  exact hsated

theorem Balanced.armed_of_inFlight (hbalanced : outbound.Balanced) (hpos : 0 < outbound.inFlight) :
    outbound.Armed := by
  have hne : outbound.flights ≠ [] := by
    intro hnone
    have hsum := hbalanced.inFlight_eq
    rw [hnone, List.map_nil, spans_nil] at hsum
    omega
  exact ⟨hne, hbalanced.running_iff.mpr hne⟩

-- What is left to send waits for a window that is full, so something is in flight.
theorem Sated.armed (hsated : outbound.Sated) (hbalanced : outbound.Balanced)
    {written : List UInt8} (hsends : outbound.Sends written)
    (hleft : outbound.input.buffer ≠ [] ∨ outbound.input.closed = true ∧ outbound.finSent = false) :
    outbound.Armed := by
  rcases hsated with hfull | hfin | ⟨hempty, hopen⟩
  · exact hbalanced.armed_of_inFlight (Nat.lt_of_lt_of_le (Nat.le_max_right _ 1) hfull)
  · -- behind a FIN there are no bytes
    have hempty : outbound.input.buffer = [] := by
      rw [hsends.input.buffer_eq, (hsends.ended hfin).2, List.drop_length]
    rw [hfin] at hleft
    exact absurd hleft (by simp [hempty])
  · rw [hopen] at hleft
    exact absurd hleft (by simp [hempty])

end UserTcp.Outbound
