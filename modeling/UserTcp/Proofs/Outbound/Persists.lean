import UserTcp.Proofs.Outbound.Fits
import UserTcp.Proofs.Outbound.Progress

namespace UserTcp.Outbound

-- A sender that goes on. It sends nothing new after its FIN, and once all that it has sent is
-- acknowledged this is so for good.
structure Persists (before after : Outbound) : Prop where
  ended : before.finSent = true → after.finSent = true ∧ after.next = before.next
  finished : before.finished = true → after.finished = true
  whole : after.input.failed = false → before.input.failed = false
  unbroken : before.Unbroken → after.Unbroken

theorem Persists.unfinished {before after : Outbound} (hpersists : Persists before after)
    (hopen : after.finished = false) : before.finished = false := by
  by_contra hfinished
  rw [hpersists.finished (eq_true_of_ne_false hfinished)] at hopen
  cases hopen

theorem Persists.refl (outbound : Outbound) : Persists outbound outbound where
  ended := fun hfin => ⟨hfin, rfl⟩
  finished := fun hfinished => hfinished
  whole := fun hwhole => hwhole
  unbroken := fun hunbroken => hunbroken

theorem failed_send (outbound : Outbound) :
    outbound.send.1.input.failed = outbound.input.failed :=
  fill_keeps (fun after => after.input.failed = outbound.input.failed) _
    (fun before hbefore _ _ _ => by
      rw [cut_eq]
      exact hbefore) outbound rfl

theorem persists_send (outbound : Outbound) : Persists outbound outbound.send.1 where
  ended := by
    intro hfin
    rw [outbound.send_of_finSent hfin]
    exact ⟨hfin, rfl⟩
  finished := by
    intro hfinished
    rw [outbound.send_of_finSent (Bool.and_eq_true_iff.mp hfinished).1]
    exact hfinished
  whole := by
    rw [failed_send]
    exact fun hwhole => hwhole
  unbroken := Unbroken.send

theorem Settles.persists {before after : Outbound} {ack : Nat}
    (hsettles : Settles before after ack) : Persists before after where
  ended := by
    rw [hsettles.finSent_eq, hsettles.next_eq]
    exact fun hfin => ⟨hfin, rfl⟩
  finished := hsettles.finished
  whole := by
    intro hwhole
    rcases hsettles.input_eq with heq | heq
    · rwa [heq] at hwhole
    · rw [heq] at hwhole
      cases hwhole
  unbroken := fun hunbroken => hunbroken.settle hsettles

theorem persists_apply (outbound : Outbound) (op : Pipe.Op) :
    Persists outbound { outbound with input := (outbound.input.apply op).2 } where
  ended := fun hfin => ⟨hfin, rfl⟩
  finished := fun hfinished => hfinished
  whole := outbound.input.failed_of_failed_apply op
  unbroken := fun hunbroken => hunbroken.apply op

-- An acknowledgment of all that was sent leaves nothing to wait for.
theorem forget_of_tiles {start stop : Nat} {flights : List Flight}
    (htiles : Tiles start flights stop) (inFlight : Nat) :
    (forget stop flights inFlight).1 = [] := by
  induction flights generalizing start inFlight with
  | nil => rfl
  | cons flight rest ih =>
      obtain ⟨-, -, hrest⟩ := htiles
      rw [forget, if_pos hrest.le]
      exact ih hrest _

theorem flights_acknowledge_next (outbound : Outbound)
    (htiles : Tiles (outbound.next - outbound.inFlight) outbound.flights outbound.next) :
    (outbound.acknowledge outbound.next).flights = [] := by
  have hforget := forget_of_tiles htiles outbound.inFlight
  simp only [acknowledge, hforget]
  split
  · rfl
  · rename_i hall
    exact List.eq_nil_of_length_eq_zero (by rw [List.length_nil] at hall; omega)

-- A sender that has sent its FIN and hears that all was received is finished.
theorem finished_receive (outbound : Outbound) (feedback : Feedback)
    (htiles : Tiles (outbound.next - outbound.inFlight) outbound.flights outbound.next)
    (hle : outbound.inFlight ≤ outbound.next) (hfin : outbound.finSent = true)
    (hrst : feedback.rst = false)
    (hackno : feedback.ackno = some (SeqNo.ofIndex outbound.next outbound.initial))
    (hindex : outbound.next < SeqNo.indexLimit) :
    (outbound.receive feedback).finished = true := by
  have hbehind : outbound.next < outbound.next + SeqNo.lap / 2 :=
    Nat.lt_add_of_pos_right (by decide)
  have hended := ((settles_receive htiles hle feedback).persists.ended hfin).1
  rw [outbound.receive_of_ackno feedback _ hrst hackno (Nat.le_refl _) hbehind hindex] at hended ⊢
  rw [finished, hended,
    flights_acknowledge_next { outbound with window := feedback.window } htiles]
  rfl

end UserTcp.Outbound
