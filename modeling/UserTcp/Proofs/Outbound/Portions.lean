import UserTcp.Proofs.Outbound.Progress

namespace UserTcp.Outbound

-- Nothing changes how many bytes a sender puts into a chunk at most.
theorem payloadLimit_after {outbound : Outbound} (hbalanced : outbound.Balanced) (event : Event) :
    (outbound.after event).payloadLimit = outbound.payloadLimit := by
  cases event with
  | send =>
      exact fill_keeps (fun after => after.payloadLimit = outbound.payloadLimit) _
        (fun _ hbefore _ _ _ => hbefore) outbound rfl
  | receive feedback =>
      exact (settles_receive hbalanced.tiles hbalanced.inFlight_le feedback).payloadLimit_eq
  | elapse time => exact (settles_elapse hbalanced.tiles time).payloadLimit_eq
  | input op => rfl

-- A sender that puts no more than so many bytes into a chunk, and has not done so before.
structure Portioned (outbound : Outbound) (limit : Nat) : Prop extends Balanced outbound where
  limit_le : outbound.payloadLimit ≤ limit
  payload_le : ∀ flight ∈ outbound.flights, flight.chunk.payload.length ≤ limit

theorem portioned_ofInput (input : Pipe) (initial : SeqNo) (timeout : Millis)
    {payloadLimit limit : Nat} (hle : payloadLimit ≤ limit) :
    (ofInput input initial timeout payloadLimit).Portioned limit where
  toBalanced := balanced_ofInput input initial timeout payloadLimit
  limit_le := hle
  payload_le := fun _ hmem => absurd hmem List.not_mem_nil

namespace Portioned

variable {outbound : Outbound} {limit : Nat}

protected theorem launch (hportioned : outbound.Portioned limit) (window : Nat)
    (hspan : 0 < (outbound.cut window).1.span) :
    (outbound.launch (outbound.cut window).1 (outbound.cut window).2).Portioned limit where
  toBalanced := hportioned.toBalanced.launch window hspan
  limit_le := hportioned.limit_le
  payload_le := by
    intro flight hmem
    rcases List.mem_append.mp hmem with hmem | hmem
    · exact hportioned.payload_le flight hmem
    · have hread := outbound.input.length_read_le (outbound.taking window)
      have hlimit := hportioned.limit_le
      rw [List.mem_singleton.mp hmem]
      change (outbound.input.read (outbound.taking window)).1.length ≤ limit
      unfold taking at hread ⊢
      omega

protected theorem send (hportioned : outbound.Portioned limit) :
    outbound.send.1.Portioned limit :=
  fill_keeps (Portioned · limit) _ (fun _ hbefore _ _ hspan => hbefore.launch _ hspan) outbound
    hportioned

theorem settle (hportioned : outbound.Portioned limit) {after : Outbound} {ack : Nat}
    (hsettles : Settles outbound after ack) (hbalanced : after.Balanced) :
    after.Portioned limit where
  toBalanced := hbalanced
  limit_le := by
    rw [hsettles.payloadLimit_eq]
    exact hportioned.limit_le
  payload_le := fun flight hmem =>
    hportioned.payload_le flight (hsettles.flights_suffix.subset hmem)

protected theorem after (hportioned : outbound.Portioned limit) (event : Event) :
    (outbound.after event).Portioned limit := by
  have hbalanced := balanced_after hportioned.toBalanced event
  cases event with
  | send => exact hportioned.send
  | receive feedback =>
      exact hportioned.settle
        (settles_receive hportioned.tiles hportioned.inFlight_le feedback) hbalanced
  | elapse time => exact hportioned.settle (settles_elapse hportioned.tiles time) hbalanced
  | input op => exact ⟨hbalanced, hportioned.limit_le, hportioned.payload_le⟩

-- A fresh chunk is kept under the number that it starts with, and ends within the window.
theorem exists_flight_of_mem_send (hportioned : outbound.Portioned limit) {chunk : Chunk}
    (hmem : chunk ∈ outbound.send.2) :
    ∃ flight ∈ outbound.send.1.flights, chunk = flight.chunk ∧ outbound.next ≤ flight.start ∧
      flight.chunk.payload.length ≤ limit ∧
      flight.stop ≤ outbound.base + outbound.usableWindow := by
  have hlocated := map_chunk_locate outbound.next outbound.send.2
  rw [← hlocated] at hmem
  obtain ⟨flight, hflight, rfl⟩ := List.mem_map.mp hmem
  have hkept : flight ∈ outbound.send.1.flights := by
    rw [flights_send]
    exact List.mem_append_right _ hflight
  obtain ⟨hstart, hspan, hstop⟩ := (tiles_locate outbound.next outbound.send.2
    (outbound.span_pos_of_mem_fill _)).mem flight hflight
  have hnext := outbound.next_send_le hportioned.inFlight_le
  rw [next_send] at hnext
  refine ⟨flight, hkept, rfl, hstart, hportioned.send.payload_le flight hkept, ?_⟩
  simp only [Flight.stop] at hstop ⊢
  omega

end Portioned

end UserTcp.Outbound
