import UserTcp.Proofs.Socket.Relay
import Mathlib

namespace UserTcp

-- The offers of datagrams and of segments are the same but for the encoding.
structure Echoes (flow : Flow) (wire : List (Offer (List UInt8))) (bare : List (Offer Segment)) :
    Prop where
  wire_eq : wire.map (Offer.map .ok) = bare.map (Offer.map (Datagram.encode flow))
  payload_le : ∀ offer ∈ bare, offer.packet.chunk.payload.length ≤ 1464

namespace Echoes

variable {flow : Flow} {wire : List (Offer (List UInt8))} {bare : List (Offer Segment)}

theorem nil (flow : Flow) : Echoes flow [] [] :=
  ⟨rfl, nofun⟩

theorem append (hechoes : Echoes flow wire bare) {moreWire : List (Offer (List UInt8))}
    {moreBare : List (Offer Segment)} (hmore : Echoes flow moreWire moreBare) :
    Echoes flow (wire ++ moreWire) (bare ++ moreBare) where
  wire_eq := by rw [List.map_append, List.map_append, hechoes.wire_eq, hmore.wire_eq]
  payload_le := fun offer hmem =>
    (List.mem_append.mp hmem).elim (hechoes.payload_le offer) (hmore.payload_le offer)

theorem cases_at (hechoes : Echoes flow wire bare) (index : Nat) :
    wire[index]? = none ∧ bare[index]? = none ∨
      ∃ packet segment outcome, wire[index]? = some ⟨packet, outcome⟩ ∧
        bare[index]? = some ⟨segment, outcome⟩ ∧ Datagram.encode flow segment = .ok packet ∧
        segment.chunk.payload.length ≤ 1464 := by
  have hget := congrArg (·[index]?) hechoes.wire_eq
  simp only [List.getElem?_map] at hget
  cases hbare : bare[index]? with
  | none =>
      rw [hbare] at hget
      exact .inl ⟨Option.map_eq_none_iff.mp hget, rfl⟩
  | some offer =>
      rw [hbare] at hget
      obtain ⟨sent, hsent, hsame⟩ := Option.map_eq_some_iff.mp hget
      injection hsame with hpacket houtcome
      refine .inr ⟨sent.packet, offer.packet, offer.outcome, ?_, rfl, hpacket.symm, ?_⟩
      · rw [hsent, ← houtcome]
      · exact hechoes.payload_le offer (List.mem_of_getElem? hbare)

end Echoes

namespace Terminal

-- A terminal of a flow, with a clock that does not go back, whose segments fit the buffer of its
-- peer.
structure Ready (terminal : Terminal) (flow : Flow) : Prop where
  flow_eq : terminal.socket.flow = flow
  reported_le : terminal.socket.reported ≤ terminal.now
  portioned : terminal.socket.connection.outbound.Portioned 1464

namespace Ready

variable {terminal : Terminal} {flow : Flow}

theorem ofSettings (id : Nat) (flow : Flow) (settings : Settings) (now : Nat)
    (hlimit : settings.payloadLimit ≤ 1464) :
    (Terminal.ofSettings id flow settings now).Ready flow where
  flow_eq := rfl
  reported_le := Nat.le_refl now
  portioned := Outbound.portioned_ofInput _ _ _ hlimit

protected theorem after (hready : terminal.Ready flow) (call : Call) :
    (terminal.after call).Ready flow where
  flow_eq := hready.flow_eq
  reported_le := reportedAfter_le hready.reported_le call
  portioned := (Connection.portioned_run hready.portioned (terminal.events call)).1

theorem payload_le (hready : terminal.Ready flow) (call : Call) :
    ∀ segment ∈ terminal.spoken call, segment.chunk.payload.length ≤ 1464 :=
  (Connection.portioned_run hready.portioned (terminal.events call)).2

-- All that a terminal sends in a call is offered to the link.
theorem echoes_perform (hready : terminal.Ready flow) (gate : Gate) (call : Call) :
    Echoes flow (terminal.perform (⟨gate, []⟩ : Watched Gate) call).carrier.offers
      (gate.answers (terminal.spoken call)) := by
  have hpayload := hready.payload_le call
  obtain ⟨packets, hpackets, hoffers⟩ := gate.transmit_eq flow [] (terminal.spoken call)
    fun segment hmem =>
      have hfits := Nat.le_trans (hpayload segment hmem) (by decide)
      (Datagram.exists_encode flow segment hfits).imp fun _ hencode => hencode.1
  rw [List.nil_append] at hoffers
  rw [perform_eq, hready.flow_eq]
  refine ⟨?_, fun offer hmem => hpayload _ (Gate.mem_answers hmem)⟩
  simp only [hoffers, Gate.map_answers, hpackets]

end Ready

end Terminal

namespace Exchange

-- Two terminals that exchange datagrams, and two connections that exchange the same segments.
structure Refines (relayed : Exchange Terminal (Offer (List UInt8)))
    (bare : Exchange Core (Offer Segment)) (flow : Flow) : Prop where
  nearReady : relayed.near.Ready flow
  farReady : relayed.far.Ready flow.reverse
  near_eq : relayed.near.core = bare.near
  far_eq : relayed.far.core = bare.far
  nearWire : Echoes flow relayed.nearWire bare.nearWire
  farWire : Echoes flow.reverse relayed.farWire bare.farWire

namespace Refines

variable {relayed : Exchange Terminal (Offer (List UInt8))} {bare : Exchange Core (Offer Segment)}
  {flow : Flow}

theorem flip (hrefines : Refines relayed bare flow) :
    Refines relayed.flip bare.flip flow.reverse where
  nearReady := hrefines.farReady
  farReady := hrefines.nearReady
  near_eq := hrefines.far_eq
  far_eq := hrefines.near_eq
  nearWire := hrefines.farWire
  farWire := hrefines.nearWire

theorem put (hrefines : Refines relayed bare flow) (call : Terminal.Call) (gate : Gate) :
    Refines
      (relayed.put .near (relayed.near.after call)
        (relayed.near.perform (⟨gate, []⟩ : Watched Gate) call).carrier.offers)
      (bare.put .near (relayed.near.after call).core (gate.answers (relayed.near.spoken call)))
      flow where
  nearReady := hrefines.nearReady.after call
  farReady := hrefines.farReady
  near_eq := rfl
  far_eq := hrefines.far_eq
  nearWire := hrefines.nearWire.append (hrefines.nearReady.echoes_perform gate call)
  farWire := hrefines.farWire

-- What an act comes to for a terminal is what it comes to for a connection alone.
theorem hand?_eq (hrefines : Refines relayed bare flow) (prompt : Prompt)
    (hinside : prompt.inside flow = true) :
    bare.hand? .near prompt = (relayed.call? .near prompt).map fun call =>
      ((relayed.near.after call).core, relayed.near.spoken call) := by
  have hle := hrefines.nearReady.reported_le
  have hflow := hrefines.nearReady.flow_eq
  cases prompt with
  | call call =>
      have hperform := Terminal.perform_core hle (hflow.symm ▸ hinside)
      rw [hrefines.near_eq] at hperform
      exact congrArg some hperform.symm
  | deliver index =>
      simp only [hand?, call?, incoming, turnTo, party]
      rcases hrefines.farWire.cases_at index with
        ⟨hwire, hbare⟩ | ⟨packet, segment, outcome, hwire, hbare, hencode, hpayload⟩
      · rw [hwire, hbare]
        rfl
      · rw [hwire, hbare]
        have hdecode := Datagram.decode_take_of_encode hpayload hencode
        rw [← hflow] at hdecode
        have hhear := Terminal.hear_core hle hdecode
        rw [hrefines.near_eq] at hhear
        cases outcome with
        | accepted => exact congrArg some hhear.symm
        | busy => rfl
        | failed reason => rfl

theorem near (hrefines : Refines relayed bare flow) (prompt : Prompt) (busy : List Bool)
    (hinside : prompt.inside flow = true) :
    Refines (relayed.relay ⟨.near, prompt, busy⟩).1 (bare.hand ⟨.near, prompt, busy⟩).1 flow ∧
      (relayed.relay ⟨.near, prompt, busy⟩).2 = (bare.hand ⟨.near, prompt, busy⟩).2 := by
  simp only [relay, hand, hrefines.hand?_eq prompt hinside]
  cases relayed.call? .near prompt with
  | none => exact ⟨hrefines, rfl⟩
  | some call =>
      refine ⟨?_, rfl⟩
      simp only [Terminal.terminal_perform]
      exact hrefines.put call ⟨busy⟩

-- The far side is the near one of the flipped exchange.
theorem act (hrefines : Refines relayed bare flow) (act : Act) (hinside : act.inside flow = true) :
    Refines (relayed.relay act).1 (bare.hand act).1 flow ∧
      (relayed.relay act).2 = (bare.hand act).2 := by
  obtain ⟨side, prompt, busy⟩ := act
  cases side with
  | near => exact hrefines.near prompt busy hinside
  | far =>
      obtain ⟨hflipped, hsame⟩ := hrefines.flip.near prompt busy hinside
      rw [relay_far, hand_far]
      exact ⟨hflipped.flip, hsame⟩

theorem run (hrefines : Refines relayed bare flow) (acts : List Act)
    (hinside : ∀ act ∈ acts, act.inside flow = true) :
    Refines (Act.run relay relayed acts).1 (Act.run hand bare acts).1 flow ∧
      (Act.run relay relayed acts).2 = (Act.run hand bare acts).2 := by
  induction acts generalizing relayed bare with
  | nil => exact ⟨hrefines, rfl⟩
  | cons act rest ih =>
      obtain ⟨hact, hsame⟩ := hrefines.act act (hinside act List.mem_cons_self)
      obtain ⟨hrest, hothers⟩ := ih hact fun later hmem =>
        hinside later (List.mem_cons_of_mem act hmem)
      exact ⟨hrest, congrArg₂ List.cons hsame hothers⟩

end Refines

theorem refines_start (nearId farId : Nat) (flow : Flow) (nearSettings farSettings : Settings)
    (nearStart farStart : Nat) (hnear : nearSettings.payloadLimit ≤ 1464)
    (hfar : farSettings.payloadLimit ≤ 1464) :
    Refines
      (ofParties (Terminal.ofSettings nearId flow nearSettings nearStart)
        (Terminal.ofSettings farId flow.reverse farSettings farStart))
      (ofParties (Core.ofSettings nearId nearSettings) (Core.ofSettings farId farSettings))
      flow where
  nearReady := Terminal.Ready.ofSettings nearId flow nearSettings nearStart hnear
  farReady := Terminal.Ready.ofSettings farId flow.reverse farSettings farStart hfar
  near_eq := congrArg (Core.mk _) (Nat.sub_self nearStart)
  far_eq := congrArg (Core.mk _) (Nat.sub_self farStart)
  nearWire := Echoes.nil flow
  farWire := Echoes.nil flow.reverse

-- Sockets that exchange datagrams go through the states of connections that hand each other their
-- segments, and send what those send. A datagram that the link was too busy for is a segment lost,
-- and one that brings nothing makes no difference.
theorem datagrams_refine_segments (nearId farId : Nat) (flow : Flow)
    (nearSettings farSettings : Settings) (nearStart farStart : Nat)
    (hnear : nearSettings.payloadLimit ≤ 1464) (hfar : farSettings.payloadLimit ≤ 1464)
    (acts : List Act) (hinside : ∀ act ∈ acts, act.inside flow = true) :
    let relayed := Act.run relay
      (ofParties (Terminal.ofSettings nearId flow nearSettings nearStart)
        (Terminal.ofSettings farId flow.reverse farSettings farStart)) acts
    let bare := Act.run hand
      (ofParties (Core.ofSettings nearId nearSettings) (Core.ofSettings farId farSettings)) acts
    relayed.1.near.core = bare.1.near ∧ relayed.1.far.core = bare.1.far ∧ relayed.2 = bare.2 ∧
      relayed.1.nearWire.map (Offer.map .ok) =
        bare.1.nearWire.map (Offer.map (Datagram.encode flow)) ∧
      relayed.1.farWire.map (Offer.map .ok) =
        bare.1.farWire.map (Offer.map (Datagram.encode flow.reverse)) := by
  intro relayed bare
  have hstart := refines_start nearId farId flow nearSettings farSettings nearStart farStart hnear
    hfar
  obtain ⟨hrefines, hsent⟩ := hstart.run acts hinside
  exact ⟨hrefines.near_eq, hrefines.far_eq, hsent, hrefines.nearWire.wire_eq,
    hrefines.farWire.wire_eq⟩

-- The first SYN is refused and goes out again. Some of what arrives was refused, is no datagram, or
-- has come before. The bytes get through.
theorem datagrams_refine_segments_busily :
    let flow : Flow := ⟨⟨⟨10, 0, 0, 2⟩, 40000⟩, ⟨⟨10, 0, 0, 1⟩, 80⟩⟩
    let acts : List Act :=
      [⟨.near, .call .connect, [true]⟩, ⟨.near, .call (.wait 1000500), []⟩,
        ⟨.near, .call .catchUp, []⟩, ⟨.far, .call (.handle [0xde, 0xad]), []⟩,
        ⟨.far, .deliver 0, []⟩, ⟨.far, .deliver 1, []⟩, ⟨.near, .deliver 0, []⟩,
        ⟨.near, .call (.write [1, 2, 3]), []⟩, ⟨.far, .deliver 3, []⟩, ⟨.far, .deliver 1, []⟩]
    let relayed := Act.run relay
      (ofParties (Terminal.ofSettings 1 flow Settings.standard 7)
        (Terminal.ofSettings 2 flow.reverse Settings.standard 0)) acts
    let bare := Act.run hand
      (ofParties (Core.ofSettings 1 Settings.standard) (Core.ofSettings 2 Settings.standard)) acts
    Settings.standard.payloadLimit ≤ 1464 ∧ (∀ act ∈ acts, act.inside flow = true) ∧
      bare.1.far.connection.inbound.stream.buffer = [1, 2, 3] ∧
      relayed.1.near.core = bare.1.near ∧ relayed.1.far.core = bare.1.far ∧ relayed.2 = bare.2 ∧
      relayed.1.nearWire.map (Offer.map .ok) =
        bare.1.nearWire.map (Offer.map (Datagram.encode flow)) ∧
      relayed.1.farWire.map (Offer.map .ok) =
        bare.1.farWire.map (Offer.map (Datagram.encode flow.reverse)) := by
  intro flow acts relayed bare
  have hlimit : Settings.standard.payloadLimit ≤ 1464 := by decide
  have hinside : ∀ act ∈ acts, act.inside flow = true := by decide
  refine ⟨hlimit, hinside, ?_,
    datagrams_refine_segments 1 2 flow _ _ 7 0 hlimit hlimit acts hinside⟩
  simp only [bare, acts]
  cbv

end Exchange

end UserTcp
