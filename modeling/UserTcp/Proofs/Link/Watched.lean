import UserTcp.Link.Basic

namespace UserTcp

-- Something that was offered to a link, and what the link answered.
structure Offer (α : Type) where
  packet : α
  outcome : SendOutcome
  deriving DecidableEq

namespace Offer

variable {α β : Type}

def map (change : α → β) (offer : Offer α) : Offer β :=
  ⟨change offer.packet, offer.outcome⟩

def passes (offer : Offer α) : Prop :=
  ∀ reason, offer.outcome ≠ .failed reason

end Offer

-- A link of which every datagram that is offered to it is written down.
structure Watched (link : Type) where
  carrier : link
  offers : List (Offer (List UInt8))
  deriving DecidableEq

-- What a call that made these offers and kept back some segments has to return. The first failure
-- ends the offers, be it one of the link or one of a segment that fits no datagram. Overflow comes
-- before all offers.
def Ends (flow : Flow) (offers : List (Offer (List UInt8))) (unsent : List Segment) :
    Except Failure Unit → Prop
  | .ok () => unsent = [] ∧ ∀ offer ∈ offers, offer.passes
  | .error (.link reason) =>
      ∃ front last, offers = front ++ [last] ∧ (∀ offer ∈ front, offer.passes) ∧
        last.outcome = .failed reason
  | .error (.datagram error) =>
      (∀ offer ∈ offers, offer.passes) ∧
        ∃ segment rest, unsent = segment :: rest ∧ Datagram.encode flow segment = .error error
  | .error (.overflow _) => offers = [] ∧ unsent = []
  | .error _ => False

theorem Ends.cons {flow : Flow} {offers : List (Offer (List UInt8))} {unsent : List Segment}
    {result : Except Failure Unit} (hends : Ends flow offers unsent result)
    (hnever : ∀ cause, result ≠ .error (.overflow cause)) {offer : Offer (List UInt8)}
    (hpasses : offer.passes) : Ends flow (offer :: offers) unsent result := by
  match result with
  | .ok () => exact ⟨hends.1, List.forall_mem_cons.mpr ⟨hpasses, hends.2⟩⟩
  | .error (.link reason) =>
      obtain ⟨front, last, rfl, hfront, hlast⟩ := hends
      exact ⟨offer :: front, last, rfl, List.forall_mem_cons.mpr ⟨hpasses, hfront⟩, hlast⟩
  | .error (.datagram error) => exact ⟨List.forall_mem_cons.mpr ⟨hpasses, hends.1⟩, hends.2⟩
  | .error (.overflow cause) => exact absurd rfl (hnever cause)
  | .error .linkEnded => exact hends
  | .error .sinkFull => exact hends

namespace Watched

variable {link : Type} [Link link]

def send (watched : Watched link) (packet : List UInt8) : Watched link × SendOutcome :=
  let answer := Link.send watched.carrier packet
  (⟨answer.1, watched.offers ++ [⟨packet, answer.2⟩]⟩, answer.2)

instance : Link (Watched link) where
  send := Watched.send

end Watched

section Transmit

variable {link : Type} [Link link]

theorem transmit_cons_of_failed {flow : Flow} (carrier : link) {segment : Segment}
    {packet : List UInt8} {reason : String} (hencode : Datagram.encode flow segment = .ok packet)
    (hfailed : (Link.send carrier packet).2 = .failed reason) (rest : List Segment) :
    transmit flow carrier (segment :: rest) =
      ((Link.send carrier packet).1, .error (.link reason)) := by
  simp only [transmit, transmitOne, hencode]
  rw [← Prod.eta (Link.send carrier packet), hfailed]

theorem transmit_cons_of_passes {flow : Flow} (carrier : link) {segment : Segment}
    {packet : List UInt8} (hencode : Datagram.encode flow segment = .ok packet)
    (hpasses : ∀ reason, (Link.send carrier packet).2 ≠ .failed reason) (rest : List Segment) :
    transmit flow carrier (segment :: rest) =
      transmit flow (Link.send carrier packet).1 rest := by
  simp only [transmit, transmitOne, hencode]
  cases hsend : Link.send carrier packet with
  | mk next outcome =>
      rw [hsend] at hpasses
      cases outcome with
      | accepted => rfl
      | busy => rfl
      | failed reason => exact absurd rfl (hpasses reason)

-- One segment: it fits no datagram, the link fails, or the next one gets its turn.
theorem transmit_cons (flow : Flow) (carrier : link) (segment : Segment) (rest : List Segment) :
    (∃ error, Datagram.encode flow segment = .error error ∧
      transmit flow carrier (segment :: rest) = (carrier, .error (.datagram error))) ∨
    (∃ packet, Datagram.encode flow segment = .ok packet ∧
      ((∃ reason, (Link.send carrier packet).2 = .failed reason ∧
          transmit flow carrier (segment :: rest) =
            ((Link.send carrier packet).1, .error (.link reason))) ∨
        (∀ reason, (Link.send carrier packet).2 ≠ .failed reason) ∧
          transmit flow carrier (segment :: rest) =
            transmit flow (Link.send carrier packet).1 rest)) := by
  cases hencode : Datagram.encode flow segment with
  | error error => exact .inl ⟨error, rfl, by simp only [transmit, transmitOne, hencode]⟩
  | ok packet =>
      refine .inr ⟨packet, rfl, ?_⟩
      by_cases hfailed : ∃ reason, (Link.send carrier packet).2 = .failed reason
      · obtain ⟨reason, hreason⟩ := hfailed
        exact .inl ⟨reason, hreason, transmit_cons_of_failed carrier hencode hreason rest⟩
      · have hpasses := not_exists.mp hfailed
        exact .inr ⟨hpasses, transmit_cons_of_passes carrier hencode hpasses rest⟩

-- To send segments takes no clock.
theorem transmit_ne_overflow (flow : Flow) (carrier : link) (segments : List Segment)
    (cause : Overflow) : (transmit flow carrier segments).2 ≠ .error (.overflow cause) := by
  induction segments generalizing carrier with
  | nil => exact nofun
  | cons segment rest ih =>
      rcases transmit_cons flow carrier segment rest with
        ⟨error, -, hsame⟩ | ⟨packet, -, ⟨reason, -, hsame⟩ | ⟨-, hsame⟩⟩
      · rw [hsame]
        exact nofun
      · rw [hsame]
        exact nofun
      · rw [hsame]
        exact ih _

-- To write the offers down makes no difference to the link or to what comes of them.
theorem transmit_watched (flow : Flow) (watched : Watched link) (segments : List Segment) :
    transmit flow watched.carrier segments =
      ((transmit flow watched segments).1.carrier, (transmit flow watched segments).2) := by
  induction segments generalizing watched with
  | nil => rfl
  | cons segment rest ih =>
      have hcarrier (packet : List UInt8) : (Link.send watched packet).1.carrier =
          (Link.send watched.carrier packet).1 := rfl
      rcases transmit_cons flow watched segment rest with
        ⟨error, hencode, hsame⟩ | ⟨packet, hencode, ⟨reason, hfailed, hsame⟩ | ⟨hpasses, hsame⟩⟩
      · simp only [transmit, transmitOne, hencode]
      · rw [hsame, hcarrier, transmit_cons_of_failed watched.carrier hencode hfailed]
      · rw [hsame, ← ih, hcarrier, transmit_cons_of_passes watched.carrier hencode hpasses]

theorem transmit_offers (flow : Flow) (watched : Watched link) (segments : List Segment) :
    ∃ sent unsent offers, segments = sent ++ unsent ∧
      (transmit flow watched segments).1.offers = watched.offers ++ offers ∧
      offers.map (fun offer => .ok offer.packet) = sent.map (Datagram.encode flow) ∧
      Ends flow offers unsent (transmit flow watched segments).2 := by
  induction segments generalizing watched with
  | nil => exact ⟨[], [], [], rfl, by rw [List.append_nil]; rfl, rfl, rfl, nofun⟩
  | cons segment rest ih =>
      rcases transmit_cons flow watched segment rest with
        ⟨error, hencode, hsame⟩ | ⟨packet, hencode, ⟨reason, hfailed, hsame⟩ | ⟨hpasses, hsame⟩⟩
      · refine ⟨[], segment :: rest, [], rfl, ?_, rfl, ?_⟩
        · rw [hsame, List.append_nil]
        · rw [hsame]
          exact ⟨nofun, segment, rest, rfl, hencode⟩
      · refine ⟨[segment], rest, [⟨packet, .failed reason⟩], rfl, ?_, ?_, ?_⟩
        · rw [hsame, ← hfailed]
          rfl
        · rw [List.map_singleton, List.map_singleton, hencode]
        · rw [hsame]
          exact ⟨[], _, rfl, nofun, rfl⟩
      · obtain ⟨sent, unsent, offers, rfl, hoffers, hmap, hends⟩ := ih (Link.send watched packet).1
        refine ⟨segment :: sent, unsent, ⟨packet, (Link.send watched packet).2⟩ :: offers, rfl, ?_,
          ?_, ?_⟩
        · rw [hsame, hoffers]
          exact List.append_assoc _ [_] _
        · rw [List.map_cons, List.map_cons, hencode, hmap]
        · rw [hsame]
          exact hends.cons (transmit_ne_overflow flow _ _) hpasses

-- What is offered is the datagram of a segment that is to be sent.
theorem exists_of_mem_offers (flow : Flow) (carrier : link) (segments : List Segment)
    {offer : Offer (List UInt8)}
    (hmem : offer ∈ (transmit flow (⟨carrier, []⟩ : Watched link) segments).1.offers) :
    ∃ segment ∈ segments, Datagram.encode flow segment = .ok offer.packet := by
  obtain ⟨sent, unsent, offers, rfl, hoffers, hmap, -⟩ :=
    transmit_offers flow (⟨carrier, []⟩ : Watched link) segments
  rw [hoffers, List.nil_append] at hmem
  have hpacket : Except.ok offer.packet ∈ sent.map (Datagram.encode flow) :=
    hmap ▸ List.mem_map_of_mem hmem
  obtain ⟨segment, hsent, hencode⟩ := List.mem_map.mp hpacket
  exact ⟨segment, List.mem_append_left unsent hsent, hencode⟩

end Transmit

-- A link that works but may be busy. It is laid down for which of the next sends it is.
structure Gate where
  busy : List Bool
  deriving DecidableEq

namespace Gate

def outcome (gate : Gate) : SendOutcome :=
  if gate.busy.headD false then .busy else .accepted

def next (gate : Gate) : Gate :=
  ⟨gate.busy.tail⟩

instance : Link Gate where
  send gate _ := (gate.next, gate.outcome)

-- What becomes of packets that are offered one after another.
def answers {α : Type} (gate : Gate) : List α → List (Offer α)
  | [] => []
  | packet :: rest => ⟨packet, gate.outcome⟩ :: gate.next.answers rest

theorem map_answers {α β : Type} (change : α → β) (gate : Gate) (packets : List α) :
    (gate.answers packets).map (Offer.map change) = gate.answers (packets.map change) := by
  induction packets generalizing gate with
  | nil => rfl
  | cons packet rest ih => simp only [answers, List.map_cons, ih, Offer.map]

theorem mem_answers {α : Type} {gate : Gate} {packets : List α} {offer : Offer α}
    (hmem : offer ∈ gate.answers packets) : offer.packet ∈ packets := by
  induction packets generalizing gate with
  | nil => exact absurd hmem List.not_mem_nil
  | cons packet rest ih =>
      rcases List.mem_cons.mp hmem with rfl | hmem
      · exact List.mem_cons_self
      · exact List.mem_cons_of_mem packet (ih hmem)

theorem outcome_ne_failed (gate : Gate) (reason : String) : gate.outcome ≠ .failed reason := by
  unfold outcome
  split <;> nofun

-- Segments that fit a datagram are all offered.
theorem transmit_eq (flow : Flow) (gate : Gate) (offers : List (Offer (List UInt8)))
    (segments : List Segment)
    (hfits : ∀ segment ∈ segments, ∃ packet, Datagram.encode flow segment = .ok packet) :
    ∃ packets, packets.map .ok = segments.map (Datagram.encode flow) ∧
      (transmit flow (⟨gate, offers⟩ : Watched Gate) segments).1.offers =
        offers ++ gate.answers packets := by
  induction segments generalizing gate offers with
  | nil => exact ⟨[], rfl, (List.append_nil _).symm⟩
  | cons segment rest ih =>
      obtain ⟨packet, hencode⟩ := hfits segment List.mem_cons_self
      obtain ⟨packets, hmap, hoffers⟩ := ih gate.next (offers ++ [⟨packet, gate.outcome⟩])
        fun later hmem => hfits later (List.mem_cons_of_mem segment hmem)
      refine ⟨packet :: packets, by rw [List.map_cons, List.map_cons, hencode, hmap], ?_⟩
      rw [transmit_cons_of_passes (⟨gate, offers⟩ : Watched Gate) hencode gate.outcome_ne_failed]
      exact hoffers.trans (List.append_assoc _ [_] _)

end Gate

end UserTcp
