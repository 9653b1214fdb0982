import UserTcp.Proofs.Outbound.Sends

namespace UserTcp.Outbound

-- What feedback and time can do to a sender: at most break its stream and drop flights from
-- the front, those that an acknowledgment of `ack` covers. The window, the alarm and the
-- count of retransmissions are free.
structure Settles (before after : Outbound) (ack : Nat) : Prop where
  input_eq : after.input = before.input ∨ after.input = before.input.fail
  initial_eq : after.initial = before.initial
  payloadLimit_eq : after.payloadLimit = before.payloadLimit
  next_eq : after.next = before.next
  synSent_eq : after.synSent = before.synSent
  finSent_eq : after.finSent = before.finSent
  flights_suffix : after.flights <:+ before.flights
  inFlight_le : after.inFlight ≤ before.inFlight
  tiles : Tiles (after.next - after.inFlight) after.flights after.next
  acked : after.inFlight = before.inFlight ∨ after.next - after.inFlight ≤ ack

namespace Settles

variable {before after : Outbound} {ack : Nat}

theorem popped_eq (hsettles : Settles before after ack) :
    after.input.popped = before.input.popped := by
  rcases hsettles.input_eq with heq | heq <;> rw [heq]
  rfl

theorem closed_eq (hsettles : Settles before after ack) :
    after.input.closed = before.input.closed := by
  rcases hsettles.input_eq with heq | heq <;> rw [heq]
  rfl

theorem carries (hsettles : Settles before after ack) {written : List UInt8}
    (hcarries : before.input.Carries written) : after.input.Carries written := by
  rcases hsettles.input_eq with heq | heq <;> rw [heq]
  · exact hcarries
  · exact hcarries.fail

-- A finished sender stays finished.
theorem finished (hsettles : Settles before after ack) (hfinished : before.finished = true) :
    after.finished = true := by
  obtain ⟨hfin, hempty⟩ := Bool.and_eq_true_iff.mp hfinished
  have hsuffix := hsettles.flights_suffix
  rw [List.isEmpty_iff.mp hempty, List.suffix_nil] at hsuffix
  rw [Outbound.finished, hsettles.finSent_eq, hfin, hsuffix]
  rfl

theorem failInput (hsettles : Settles before after ack) : Settles before after.failInput ack where
  input_eq := by
    right
    rcases hsettles.input_eq with heq | heq
    · exact congrArg Pipe.fail heq
    · have hfail : after.input.fail = before.input.fail.fail := congrArg Pipe.fail heq
      exact hfail
  initial_eq := hsettles.initial_eq
  payloadLimit_eq := hsettles.payloadLimit_eq
  next_eq := hsettles.next_eq
  synSent_eq := hsettles.synSent_eq
  finSent_eq := hsettles.finSent_eq
  flights_suffix := hsettles.flights_suffix
  inFlight_le := hsettles.inFlight_le
  tiles := hsettles.tiles
  acked := hsettles.acked

end Settles

namespace Sends

variable {outbound : Outbound} {written : List UInt8}

theorem settle (hsends : outbound.Sends written) {after : Outbound} {ack : Nat}
    (hsettles : Settles outbound after ack) : after.Sends written where
  input := hsettles.carries hsends.input
  next_eq := by
    rw [hsettles.next_eq, hsettles.synSent_eq, hsettles.finSent_eq, hsettles.popped_eq,
      hsends.next_eq]
  unsent := by
    rw [hsettles.synSent_eq, hsettles.finSent_eq, hsettles.popped_eq]
    exact hsends.unsent
  ended := by
    rw [hsettles.finSent_eq, hsettles.closed_eq, hsettles.popped_eq]
    exact hsends.ended
  inFlight_le := by
    rw [hsettles.next_eq]
    exact Nat.le_trans hsettles.inFlight_le hsends.inFlight_le
  tiles := hsettles.tiles
  placed := by
    intro flight hmem
    rw [hsettles.initial_eq, hsettles.closed_eq]
    exact hsends.placed flight (hsettles.flights_suffix.subset hmem)

end Sends

-- Who leaves the flights alone settles nothing.
theorem settles_of_flights {outbound after : Outbound} {ack : Nat}
    (htiles : Tiles (outbound.next - outbound.inFlight) outbound.flights outbound.next)
    (hinput : after.input = outbound.input ∨ after.input = outbound.input.fail)
    (hinitial : after.initial = outbound.initial)
    (hlimit : after.payloadLimit = outbound.payloadLimit) (hnext : after.next = outbound.next)
    (hsyn : after.synSent = outbound.synSent) (hfin : after.finSent = outbound.finSent)
    (hflights : after.flights = outbound.flights) (hinFlight : after.inFlight = outbound.inFlight) :
    Settles outbound after ack where
  input_eq := hinput
  initial_eq := hinitial
  payloadLimit_eq := hlimit
  next_eq := hnext
  synSent_eq := hsyn
  finSent_eq := hfin
  flights_suffix := hflights ▸ List.suffix_rfl
  inFlight_le := Nat.le_of_eq hinFlight
  tiles := by
    rw [hflights, hinFlight, hnext]
    exact htiles
  acked := .inl hinFlight

-- An acknowledgment leaves everything alone but the flights and what depends on them.
theorem settles_acknowledge (outbound : Outbound) (ack : Nat)
    (htiles : Tiles (outbound.next - outbound.inFlight) outbound.flights outbound.next)
    (hle : outbound.inFlight ≤ outbound.next) :
    Settles outbound (outbound.acknowledge ack) ack := by
  obtain ⟨gone, base, hgone, hleft, hbase, hlower, hcases⟩ :=
    tiles_forget ack outbound.flights outbound.inFlight _ _ htiles (by omega)
  simp only [acknowledge]
  split
  · refine ⟨.inl rfl, rfl, rfl, rfl, rfl, rfl, ⟨gone, hgone.symm⟩, ?_, ?_, ?_⟩
    · change (forget ack outbound.flights outbound.inFlight).2 ≤ outbound.inFlight
      omega
    · have hstart : outbound.next - (forget ack outbound.flights outbound.inFlight).2 = base := by
        omega
      rw [← hstart] at hleft
      exact hleft
    · change (forget ack outbound.flights outbound.inFlight).2 = outbound.inFlight ∨
        outbound.next - (forget ack outbound.flights outbound.inFlight).2 ≤ ack
      omega
  · exact ⟨.inl rfl, rfl, rfl, rfl, rfl, rfl, List.suffix_rfl, Nat.le_refl _, htiles, .inl rfl⟩

-- The index that feedback acknowledges, read close to the next index to send.
def acked (outbound : Outbound) (feedback : Feedback) : Nat :=
  feedback.ackno.elim 0 fun ackno => ackno.nearestIndex outbound.initial outbound.next

theorem settles_receive {outbound : Outbound}
    (htiles : Tiles (outbound.next - outbound.inFlight) outbound.flights outbound.next)
    (hle : outbound.inFlight ≤ outbound.next) (feedback : Feedback) :
    Settles outbound (outbound.receive feedback) (outbound.acked feedback) := by
  simp only [receive]
  split
  · exact settles_of_flights htiles (.inr rfl) rfl rfl rfl rfl rfl rfl rfl
  · split
    next =>
      split
      · exact settles_of_flights htiles (.inr rfl) rfl rfl rfl rfl rfl rfl rfl
      · exact settles_of_flights htiles (.inl rfl) rfl rfl rfl rfl rfl rfl rfl
    next ackno hackno =>
      have hacked : outbound.acked feedback =
          ackno.nearestIndex outbound.initial outbound.next := by rw [acked, hackno]; rfl
      split
      · exact settles_of_flights htiles (.inl rfl) rfl rfl rfl rfl rfl rfl rfl
      · rw [hacked]
        -- the new window has no part in what an acknowledgment does to the flights
        obtain ⟨hinput, hinitial, hlimit, hnext, hsyn, hfin, hflights, hinFlight, htiles, hack⟩ :=
          settles_acknowledge { outbound with window := feedback.window }
            (ackno.nearestIndex outbound.initial outbound.next) htiles hle
        exact ⟨hinput, hinitial, hlimit, hnext, hsyn, hfin, hflights, hinFlight, htiles, hack⟩

-- Time has a part in the alarm and in the count of retransmissions only.
theorem elapse_eq (outbound : Outbound) (time : Millis) :
    ∃ alarm retransmissions, (outbound.elapse time).1 =
      { outbound with alarm := alarm, retransmissions := retransmissions } := by
  simp only [elapse]
  split
  · split
    · exact ⟨_, _, rfl⟩
    · exact ⟨_, _, rfl⟩
  · exact ⟨_, _, rfl⟩

@[simp] theorem input_elapse (outbound : Outbound) (time : Millis) :
    (outbound.elapse time).1.input = outbound.input := by
  obtain ⟨alarm, retransmissions, heq⟩ := outbound.elapse_eq time
  rw [heq]

theorem settles_elapse {outbound : Outbound}
    (htiles : Tiles (outbound.next - outbound.inFlight) outbound.flights outbound.next)
    (time : Millis) : Settles outbound (outbound.elapse time).1 0 := by
  obtain ⟨alarm, retransmissions, heq⟩ := outbound.elapse_eq time
  rw [heq]
  exact settles_of_flights htiles (.inl rfl) rfl rfl rfl rfl rfl rfl rfl

namespace Sends

variable {outbound : Outbound} {written : List UInt8}

theorem settles_receive (hsends : outbound.Sends written) (feedback : Feedback) :
    Settles outbound (outbound.receive feedback) (outbound.acked feedback) :=
  Outbound.settles_receive hsends.tiles hsends.inFlight_le feedback

theorem settles_elapse (hsends : outbound.Sends written) (time : Millis) :
    Settles outbound (outbound.elapse time).1 0 :=
  Outbound.settles_elapse hsends.tiles time

end Sends

theorem input_acknowledge (outbound : Outbound) (ack : Nat) :
    (outbound.acknowledge ack).input = outbound.input := by
  simp only [acknowledge]
  split <;> rfl

@[simp] theorem flights_elapse (outbound : Outbound) (time : Millis) :
    (outbound.elapse time).1.flights = outbound.flights := by
  obtain ⟨alarm, retransmissions, heq⟩ := outbound.elapse_eq time
  rw [heq]

theorem elapse_of_idle {outbound : Outbound} {time : Millis}
    (hidle : (outbound.alarm.advance time).due = false) :
    outbound.elapse time = ({ outbound with alarm := outbound.alarm.advance time }, none) := by
  simp only [elapse, hidle, Bool.false_eq_true, ↓reduceIte]

theorem elapse_of_due {outbound : Outbound} {time : Millis}
    (hdue : (outbound.alarm.advance time).due = true)
    {oldest : Flight} {rest : List Flight} (hflights : outbound.flights = oldest :: rest) :
    outbound.elapse time =
      { outbound with alarm := outbound.alarm.advance time }.retransmit oldest := by
  simp only [elapse, hdue, ↓reduceIte, hflights]

theorem due_of_elapse {outbound : Outbound} {time : Millis} {chunk : Chunk}
    (hsent : (outbound.elapse time).2 = some chunk) :
    (outbound.alarm.advance time).due = true := by
  cases hdue : (outbound.alarm.advance time).due with
  | true => rfl
  | false =>
      rw [elapse_of_idle hdue] at hsent
      cases hsent

-- When the alarm is due and something waits, the oldest flight goes out again and is counted.
theorem elapse_cases (outbound : Outbound) (time : Millis) :
    (outbound.elapse time).2 = none ∧
        (outbound.elapse time).1.retransmissions = outbound.retransmissions ∨
      ∃ oldest, outbound.flights.head? = some oldest ∧
        (outbound.elapse time).2 = some oldest.chunk ∧
        (outbound.elapse time).1.retransmissions = outbound.retransmissions + 1 := by
  simp only [elapse]
  split
  · split
    next => exact .inl ⟨rfl, rfl⟩
    next oldest rest hflights => exact .inr ⟨oldest, by rw [hflights]; rfl, rfl, rfl⟩
  · exact .inl ⟨rfl, rfl⟩

-- What goes out when the alarm is due is the oldest chunk that still waits.
theorem head?_flights_of_elapse (outbound : Outbound) (time : Millis) (chunk : Chunk)
    (hsent : (outbound.elapse time).2 = some chunk) :
    outbound.flights.head?.map Flight.chunk = some chunk := by
  simp only [elapse] at hsent
  split at hsent
  · split at hsent
    next => cases hsent
    next oldest rest hflights =>
      rw [hflights, ← hsent]
      rfl
  · cases hsent

end UserTcp.Outbound
