import UserTcp.Outbound
import UserTcp.Pipe.Lemmas

namespace UserTcp.Outbound

-- What holds before and is kept by the launch of every fresh chunk, together with the
-- chunks sent so far, holds after a fill.
theorem fill_keeps_sent (property : Outbound → List Chunk → Prop) (window : Nat)
    (hlaunch : ∀ (outbound : Outbound) (sent : List Chunk), property outbound sent →
      outbound.inFlight < window → outbound.finSent = false →
      0 < (outbound.cut window).1.span →
      property (outbound.launch (outbound.cut window).1 (outbound.cut window).2)
        (sent ++ [(outbound.cut window).1]))
    (outbound : Outbound) (sent : List Chunk) (hstart : property outbound sent) :
    property (outbound.fill window).1 (sent ++ (outbound.fill window).2) := by
  fun_induction Outbound.fill outbound window generalizing sent with
  | case1 outbound hroom fresh hspan rest ih =>
      have hrest := ih (sent ++ [fresh.1]) (hlaunch outbound sent hstart hroom.1 hroom.2 hspan)
      rw [List.append_assoc] at hrest
      exact hrest
  | case2 =>
      rw [List.append_nil]
      exact hstart
  | case3 =>
      rw [List.append_nil]
      exact hstart

theorem fill_keeps (property : Outbound → Prop) (window : Nat)
    (hlaunch : ∀ outbound : Outbound, property outbound → outbound.inFlight < window →
      outbound.finSent = false → 0 < (outbound.cut window).1.span →
      property (outbound.launch (outbound.cut window).1 (outbound.cut window).2))
    (outbound : Outbound) (hstart : property outbound) :
    property (outbound.fill window).1 :=
  fill_keeps_sent (fun outbound _ => property outbound) window
    (fun outbound _ => hlaunch outbound) outbound [] hstart

theorem span_pos_of_mem_fill (outbound : Outbound) (window : Nat) (chunk : Chunk)
    (hmem : chunk ∈ (outbound.fill window).2) : 0 < chunk.span := by
  fun_induction Outbound.fill outbound window with
  | case1 outbound hroom fresh hspan rest ih =>
      cases List.mem_cons.mp hmem with
      | inl hfresh =>
          rw [hfresh]
          exact hspan
      | inr hrest => exact ih hrest
  | case2 => exact absurd hmem List.not_mem_nil
  | case3 => exact absurd hmem List.not_mem_nil

-- A fresh chunk occupies no more than the room that the window leaves.
theorem span_cut_le (outbound : Outbound) (window : Nat) (hroom : outbound.inFlight < window) :
    (outbound.cut window).1.span ≤ window - outbound.inFlight := by
  have hread := outbound.input.length_read_le (min (min
    (window - outbound.inFlight - (!outbound.synSent).toNat) outbound.payloadLimit)
    outbound.input.buffered)
  have hsyn := Bool.toNat_le (!outbound.synSent)
  simp only [cut, Chunk.span]
  generalize outbound.input.read _ = taken at hread ⊢
  -- the FIN joins only when the payload leaves a place for it
  by_cases hfin : taken.1.length < window - outbound.inFlight - (!outbound.synSent).toNat
  · have hbit := Bool.toNat_le (taken.2.drained && decide
      (taken.1.length < window - outbound.inFlight - (!outbound.synSent).toNat))
    omega
  · simp only [hfin, decide_false, Bool.and_false, Bool.toNat_false]
    omega

end UserTcp.Outbound
