import UserTcp.Proofs.Inbound.Takes

namespace UserTcp.Inbound

-- A receiver closes its stream when it has reached the end that it was told, and not before.
-- Before the SYN it listens to nobody.
structure Orderly (inbound : Inbound) : Prop where
  begun : inbound.reassembly.finalIndex ≠ none → inbound.initial ≠ none
  closed_iff : inbound.stream.closed = true ↔
    inbound.reassembly.finalIndex = some inbound.stream.pushed
  unlearned : inbound.initial = none → inbound.stream.pushed = 0

theorem orderly_ofCapacity (capacity : Nat) : (ofCapacity capacity).Orderly where
  begun := fun htold => absurd rfl htold
  closed_iff := ⟨fun hclosed => absurd hclosed Bool.false_ne_true, fun hfinal => by cases hfinal⟩
  unlearned := fun _ => rfl

-- A closed stream takes nothing any more.
theorem place_of_closed (inbound : Inbound) (chunk : Chunk) (initial : SeqNo)
    (hclosed : inbound.stream.closed = true) : inbound.place chunk initial = inbound := by
  unfold place
  split
  · rfl
  · rw [Reassembly.insert_of_not_admits]
    have hadmits : inbound.reassembly.output.closed = true := hclosed
    rw [Reassembly.admits, hadmits]
    rfl

theorem finalIndex_place (inbound : Inbound) (chunk : Chunk) (initial : SeqNo)
    (hfin : chunk.fin = false) (htold : (inbound.place chunk initial).reassembly.finalIndex ≠ none) :
    inbound.reassembly.finalIndex ≠ none := by
  unfold place at htold
  split at htold
  · exact htold
  · obtain ⟨index, hindex⟩ := Option.ne_none_iff_exists'.mp htold
    rcases Reassembly.finalIndex_insert_cases _ _ _ index hindex with hbefore | ⟨hlast, -⟩
    · rw [hbefore]
      exact Option.some_ne_none index
    · rw [hfin] at hlast
      cases hlast

-- Only a FIN tells where the stream ends.
theorem finalIndex_receive (inbound : Inbound) (chunk : Chunk) (hfin : chunk.fin = false)
    (htold : (inbound.receive chunk).reassembly.finalIndex ≠ none) :
    inbound.reassembly.finalIndex ≠ none := by
  unfold receive at htold
  split at htold
  · exact htold
  · split at htold
    · exact inbound.finalIndex_place chunk _ hfin htold
    · split at htold
      · exact finalIndex_place { inbound with initial := some chunk.seqno } chunk _ hfin htold
      · exact htold

theorem closed_receive (inbound : Inbound) (chunk : Chunk)
    (hclosed : inbound.stream.closed = true) : (inbound.receive chunk).stream.closed = true := by
  unfold receive
  split
  · exact hclosed
  · split
    · rw [inbound.place_of_closed chunk _ hclosed]
      exact hclosed
    · split
      · rw [place_of_closed { inbound with initial := some chunk.seqno } chunk _ hclosed]
        exact hclosed
      · exact hclosed

theorem failed_receive (inbound : Inbound) (chunk : Chunk) :
    (inbound.receive chunk).stream.failed = (chunk.rst || inbound.stream.failed) := by
  cases hrst : chunk.rst with
  | false =>
      rw [Bool.false_or]
      exact (inbound.gains_receive chunk hrst).failed_eq
  | true =>
      rw [inbound.receive_of_rst chunk hrst]
      rfl

theorem failed_of_failed_receive (inbound : Inbound) (chunk : Chunk)
    (hwhole : (inbound.receive chunk).stream.failed = false) : inbound.stream.failed = false := by
  rw [failed_receive] at hwhole
  exact (Bool.or_eq_false_iff.mp hwhole).2

namespace Orderly

variable {inbound : Inbound}

theorem ended (horderly : inbound.Orderly) (hclosed : inbound.stream.closed = true) :
    inbound.reassembly.finalIndex ≠ none := by
  rw [horderly.closed_iff.mp hclosed]
  exact Option.some_ne_none _

theorem learn (horderly : inbound.Orderly) (initial : SeqNo) :
    { inbound with initial := some initial }.Orderly where
  begun := fun _ => Option.some_ne_none initial
  closed_iff := horderly.closed_iff
  unlearned := fun hnone => absurd hnone (Option.some_ne_none initial)

protected theorem place (horderly : inbound.Orderly) (chunk : Chunk) {initial : SeqNo}
    (hknown : inbound.initial ≠ none) : (inbound.place chunk initial).Orderly where
  begun := fun _ => by
    rw [initial_place]
    exact hknown
  closed_iff := by
    unfold Inbound.place
    split
    · exact horderly.closed_iff
    · rename_i index _
      cases hadmits : inbound.reassembly.admits ⟨index, chunk.payload⟩ with
      | false =>
          rw [Reassembly.insert_of_not_admits _ _ _ hadmits]
          exact horderly.closed_iff
      | true => exact Reassembly.closed_insert _ _ _ hadmits
  unlearned := by
    rw [initial_place]
    exact fun hnone => absurd hnone hknown

protected theorem receive (horderly : inbound.Orderly) (chunk : Chunk) :
    (inbound.receive chunk).Orderly := by
  unfold Inbound.receive
  split
  · exact ⟨horderly.begun, horderly.closed_iff, horderly.unlearned⟩
  · split
    · rename_i known hknown
      exact horderly.place chunk (by rw [hknown]; exact Option.some_ne_none known)
    · split
      · exact (horderly.learn chunk.seqno).place chunk (Option.some_ne_none _)
      · exact horderly

end Orderly

-- What readers and a break of the stream leave alone.
structure Persists (before after : Inbound) : Prop where
  initial_eq : after.initial = before.initial
  finalIndex_eq : after.reassembly.finalIndex = before.reassembly.finalIndex
  closed_eq : after.stream.closed = before.stream.closed
  pushed_eq : after.stream.pushed = before.stream.pushed
  whole : after.stream.failed = false → before.stream.failed = false

theorem Persists.refl (inbound : Inbound) : Persists inbound inbound :=
  ⟨rfl, rfl, rfl, rfl, fun hwhole => hwhole⟩

theorem persists_apply (inbound : Inbound) (op : Pipe.Op) (hop : op.feeds = false) :
    Persists inbound (inbound.mapStream fun pipe => (pipe.apply op).2) where
  initial_eq := rfl
  finalIndex_eq := rfl
  closed_eq := Pipe.closed_apply_of_not_feeds inbound.stream op hop
  pushed_eq := Pipe.pushed_apply inbound.stream op hop
  whole := inbound.stream.failed_of_failed_apply op

theorem Orderly.persist {before after : Inbound} (horderly : before.Orderly)
    (hpersists : Persists before after) : after.Orderly where
  begun := by
    rw [hpersists.finalIndex_eq, hpersists.initial_eq]
    exact horderly.begun
  closed_iff := by
    rw [hpersists.closed_eq, hpersists.finalIndex_eq, hpersists.pushed_eq]
    exact horderly.closed_iff
  unlearned := by
    rw [hpersists.initial_eq, hpersists.pushed_eq]
    exact horderly.unlearned

end UserTcp.Inbound
