import UserTcp.Exchange.Party
import UserTcp.Proofs.Connection.Bounded
import UserTcp.Proofs.Connection.Opening
import UserTcp.Proofs.Datagram.RoundTrip

namespace UserTcp

def Side.other : Side → Side
  | .near => .far
  | .far => .near

-- One of the two has no more room for a stream than a datagram for a payload, or both put no more
-- into a segment.
def Settings.Narrow (settings peer : Settings) : Prop :=
  settings.capacity ≤ 65495 ∨ peer.capacity ≤ 65495 ∨
    settings.payloadLimit ≤ 65495 ∧ peer.payloadLimit ≤ 65495

-- A connection replies with what the call leaves behind, a call that is cut short included.
theorem Connection.reply_eq (connection : Connection) (segment : Segment) :
    ∃ reports, Party.receive connection segment =
      (⟨(connection.receive segment).1, (connection.receive segment).2, reports⟩ :
        Reply Connection Segment Overflow) := by
  simp only [Party.receive, Connection.receive]
  cases connection.receive? segment with
  | error cause => exact ⟨[cause], rfl⟩
  | ok received => exact ⟨[], rfl⟩

namespace Exchange

theorem receive_near (exchange : Exchange Connection Segment) (segment : Segment) :
    (exchange.receive .near segment).1 = exchange.put .near (exchange.near.receive segment).1
      (exchange.near.receive segment).2 := by
  obtain ⟨reports, hreply⟩ := exchange.near.reply_eq segment
  change exchange.put .near (Party.receive exchange.near segment).party
    (Party.receive exchange.near segment).sent = _
  rw [hreply]

-- What can happen at a connection that exchanges segments with another one. What is on its way can
-- be lost, and can come in any order, as often and as late as the network likes.
inductive Deed where
  | act (action : Connection.Action)
  | deliver (index : Nat) (keep : Bool)
  | lose (index : Nat)

structure Turn where
  side : Side
  deed : Deed

def undergo (exchange : Exchange Connection Segment) : Deed → Exchange Connection Segment
  | .act action =>
      let performed := exchange.near.perform action
      exchange.put .near performed.1 performed.2
  | .deliver index keep => ((exchange.deliver .near index keep).map Prod.fst).getD exchange
  | .lose index => exchange.drop .near index

def turn (exchange : Exchange Connection Segment) (turn : Turn) : Exchange Connection Segment :=
  ((exchange.turnTo turn.side).undergo turn.deed).turnTo turn.side

def turns (exchange : Exchange Connection Segment) (turns : List Turn) :
    Exchange Connection Segment :=
  turns.foldl turn exchange

def ofSettings (nearId farId : Nat) (settings peer : Settings) : Exchange Connection Segment :=
  ofParties (Connection.ofSettings nearId settings) (Connection.ofSettings farId peer)

-- Both connections keep to their settings and to the room of the other, and so do the segments
-- that are on their way.
structure Bounded (exchange : Exchange Connection Segment) (settings peer : Settings) : Prop where
  near : exchange.near.Bounded settings peer.capacity
  far : exchange.far.Bounded peer settings.capacity
  nearWire : ∀ segment ∈ exchange.nearWire, segment.Bounded settings peer.capacity
  farWire : ∀ segment ∈ exchange.farWire, segment.Bounded peer settings.capacity

theorem bounded_ofSettings (nearId farId : Nat) (settings peer : Settings) :
    (ofSettings nearId farId settings peer).Bounded settings peer where
  near := Connection.bounded_ofSettings nearId settings peer.capacity
  far := Connection.bounded_ofSettings farId peer settings.capacity
  nearWire := fun _ hmem => absurd hmem List.not_mem_nil
  farWire := fun _ hmem => absurd hmem List.not_mem_nil

namespace Bounded

variable {exchange : Exchange Connection Segment} {settings peer : Settings}

theorem flip (hbounded : exchange.Bounded settings peer) : exchange.flip.Bounded peer settings :=
  ⟨hbounded.far, hbounded.near, hbounded.farWire, hbounded.nearWire⟩

-- What has become of the near connection, and what it has sent.
theorem put (hbounded : exchange.Bounded settings peer) {connection : Connection}
    {sent : List Segment} (hmoved : connection.Bounded settings peer.capacity ∧
      ∀ segment ∈ sent, segment.Bounded settings peer.capacity) :
    (exchange.put .near connection sent).Bounded settings peer where
  near := hmoved.1
  far := hbounded.far
  nearWire := fun segment hmem =>
    (List.mem_append.mp hmem).elim (hbounded.nearWire segment) (hmoved.2 segment)
  farWire := hbounded.farWire

theorem drop (hbounded : exchange.Bounded settings peer) (index : Nat) :
    (exchange.drop .near index).Bounded settings peer where
  near := hbounded.near
  far := hbounded.far
  nearWire := hbounded.nearWire
  farWire := fun segment hmem => hbounded.farWire segment (List.mem_of_mem_eraseIdx hmem)

theorem undergo (hbounded : exchange.Bounded settings peer) (deed : Deed) :
    (exchange.undergo deed).Bounded settings peer := by
  cases deed with
  | act action => exact hbounded.put (hbounded.near.perform action)
  | deliver index keep =>
      cases hsegment : (exchange.incoming .near)[index]? with
      | none =>
          simp only [Exchange.undergo, deliver, hsegment]
          exact hbounded
      | some segment =>
          simp only [Exchange.undergo, deliver, hsegment, Option.map_some, Option.getD_some,
            receive_near]
          have hcame := hbounded.farWire segment (List.mem_of_getElem? hsegment)
          have hreceived := hbounded.near.receive hcame.window_le
          cases keep with
          | true => exact hbounded.put hreceived
          | false => exact (hbounded.drop index).put hreceived
  | lose index => exact hbounded.drop index

theorem turn (hbounded : exchange.Bounded settings peer) (turn : Turn) :
    (exchange.turn turn).Bounded settings peer := by
  obtain ⟨side, deed⟩ := turn
  cases side with
  | near => exact hbounded.undergo deed
  | far => exact (hbounded.flip.undergo deed).flip

theorem turns (hbounded : exchange.Bounded settings peer) (turns : List Turn) :
    (exchange.turns turns).Bounded settings peer :=
  List.foldlRecOn (motive := fun after => after.Bounded settings peer) turns Exchange.turn hbounded
    fun _ hbefore turn _ => hbefore.turn turn

-- All that is on its way fits a datagram, and all that may have to be sent again.
theorem encodes (hbounded : exchange.Bounded settings peer)
    (hfits : min settings.payloadLimit (min settings.capacity (max peer.capacity 1)) ≤ 65495)
    (flow : Flow) :
    (∀ segment ∈ exchange.nearWire, ∃ packet, Datagram.encode flow segment = .ok packet) ∧
      ∀ flight ∈ exchange.near.outbound.flights,
        ∃ packet, Datagram.encode flow (exchange.near.segment flight.chunk) = .ok packet := by
  have hencodes : ∀ segment : Segment, segment.chunk.payload.length ≤ 65495 →
      ∃ packet, Datagram.encode flow segment = .ok packet := fun segment hle =>
    (Datagram.exists_encode flow segment hle).imp fun _ hpacket => hpacket.1
  exact ⟨fun segment hmem =>
      hencodes segment (Nat.le_trans (hbounded.nearWire segment hmem).payload_le hfits),
    fun flight hmem => hencodes (exchange.near.segment flight.chunk)
      (Nat.le_trans (hbounded.near.outbound.payload_le_min hmem) hfits)⟩

end Bounded

section Opening

variable {exchange : Exchange Connection Segment} {side : Side}

theorem turnTo_turn (deed : Deed) :
    (exchange.turn ⟨side, deed⟩).turnTo side = (exchange.turnTo side).undergo deed :=
  turnTo_turnTo _ side

theorem turnTo_turn_other (deed : Deed) :
    (exchange.turn ⟨side.other, deed⟩).turnTo side =
      ((exchange.turnTo side).flip.undergo deed).flip := by
  cases side <;> rfl

-- A side writes something and opens, the other side answers, and the answer comes back.
def openingTurns (side : Side) (bytes : List UInt8) : List Turn :=
  [⟨side, .act (.outgoing (.push bytes))⟩, ⟨side, .act .send⟩, ⟨side.other, .deliver 0 false⟩,
    ⟨side, .deliver 0 false⟩]

theorem undergo_opening (id peerId : Nat) (settings peer : Settings) (bytes : List UInt8) :
    ((ofSettings id peerId settings peer).undergo (.act (.outgoing (.push bytes)))).undergo
        (.act .send) =
      ⟨(Connection.loaded id settings bytes).sending, Connection.ofSettings peerId peer,
        [(Connection.loaded id settings bytes).sending.segment settings.initial.opening], []⟩ := by
  have hsend := Connection.send_loaded id settings bytes
  change Exchange.mk (Connection.loaded id settings bytes).send.1
    (Connection.ofSettings peerId peer) (Connection.loaded id settings bytes).send.2 [] = _
  rw [hsend]

theorem undergo_deliver_first (near far : Connection) (nearWire rest : List Segment)
    (segment : Segment) :
    (Exchange.mk near far nearWire (segment :: rest)).undergo (.deliver 0 false) =
      ⟨(near.receive segment).1, far, nearWire ++ (near.receive segment).2, rest⟩ :=
  receive_near ⟨near, far, nearWire, rest⟩ segment

theorem undergo_deliver_first_other (near far : Connection) (farWire rest : List Segment)
    (segment : Segment) :
    ((Exchange.mk near far (segment :: rest) farWire).flip.undergo (.deliver 0 false)).flip =
      ⟨near, (far.receive segment).1, rest, farWire ++ (far.receive segment).2⟩ :=
  congrArg flip (undergo_deliver_first far near farWire rest segment)

-- When nothing on either side forbids it, all that was written is in one segment.
theorem exists_whole (id peerId : Nat) (settings peer : Settings) (bytes : List UInt8)
    (hlinger : settings.LingerFits) (hpeerLinger : peer.LingerFits)
    (hstart : exchange.turnTo side = ofSettings id peerId settings peer) (hsome : bytes ≠ [])
    (hlimit : bytes.length ≤ settings.payloadLimit) (hcapacity : bytes.length ≤ settings.capacity)
    (hroom : bytes.length ≤ peer.capacity) (hwindow : bytes.length ≤ 65535) :
    ∃ segment ∈ ((exchange.turns (openingTurns side bytes)).turnTo side).nearWire,
      segment.chunk.payload = bytes := by
  have hpos := List.length_pos_iff.mpr hsome
  obtain ⟨answer, rest, hanswer, hrst, hfeedback⟩ := Connection.receive_opening peerId peer
    hpeerLinger settings.initial (Connection.breaks_opening id settings bytes (by omega))
  obtain ⟨segment, others, hsegment, hpayload⟩ :=
    Connection.receive_sending_loaded id settings bytes hlinger hrst (by rw [hfeedback])
      (by
        rw [hfeedback, UInt16.toNat_ofNat']
        omega)
      hsome hcapacity hlimit
  refine ⟨segment, ?_, hpayload⟩
  simp only [turns, openingTurns, List.foldl_cons, List.foldl_nil]
  rw [turnTo_turn, turnTo_turn_other, turnTo_turn, turnTo_turn, hstart, undergo_opening]
  -- the only segment on the way is delivered, and then the first of the answer
  rw [undergo_deliver_first_other, Connection.segment, hanswer, List.nil_append,
    undergo_deliver_first, hsegment]
  exact List.mem_cons_self

theorem exists_oversize (id peerId : Nat) {settings peer : Settings}
    (hlinger : settings.LingerFits) (hpeerLinger : peer.LingerFits)
    (hstart : exchange.turnTo side = ofSettings id peerId settings peer)
    (hlimit : 65496 ≤ settings.payloadLimit) (hcapacity : 65496 ≤ settings.capacity)
    (hroom : 65496 ≤ peer.capacity) :
    let events := openingTurns side (List.replicate 65496 0)
    ∃ segment ∈ ((exchange.turns events).turnTo side).nearWire,
      segment.chunk.payload.length = 65496 := by
  intro events
  have hlength : (List.replicate 65496 (0 : UInt8)).length = 65496 := List.length_replicate
  have hsome : List.replicate 65496 (0 : UInt8) ≠ [] := List.ne_nil_of_length_pos (by omega)
  obtain ⟨segment, hmem, hpayload⟩ := exists_whole id peerId settings peer
    (List.replicate 65496 0) hlinger hpeerLinger hstart hsome (by omega) (by omega) (by omega)
    (by omega)
  exact ⟨segment, hmem, hpayload ▸ hlength⟩

end Opening

-- All that two connections ever send to each other fits a datagram, whatever the network does with
-- it.
def FitsDatagrams (nearId farId : Nat) (settings peer : Settings) : Prop :=
  ∀ (events : List Turn) (side : Side) (flow : Flow),
    let reached := ((ofSettings nearId farId settings peer).turns events).turnTo side
    (∀ segment ∈ reached.nearWire, ∃ packet, Datagram.encode flow segment = .ok packet) ∧
      ∀ flight ∈ reached.near.outbound.flights,
        ∃ packet, Datagram.encode flow (reached.near.segment flight.chunk) = .ok packet

section Fitting

variable {nearId farId : Nat} {settings peer : Settings}

theorem fitsDatagrams_of_narrow (hnarrow : settings.Narrow peer) :
    FitsDatagrams nearId farId settings peer := by
  intro events side flow
  unfold Settings.Narrow at hnarrow
  have hbounded := (bounded_ofSettings nearId farId settings peer).turns events
  cases side with
  | near => exact hbounded.encodes (by omega) flow
  | far => exact hbounded.flip.encodes (by omega) flow

theorem narrow_of_fitsDatagrams (hlinger : settings.LingerFits) (hpeerLinger : peer.LingerFits)
    (hall : FitsDatagrams nearId farId settings peer) : settings.Narrow peer := by
  have hnarrow : ∀ (side : Side) (id peerId : Nat) (ours theirs : Settings),
      ours.LingerFits → theirs.LingerFits →
        (ofSettings nearId farId settings peer).turnTo side = ofSettings id peerId ours theirs →
          ours.capacity ≤ 65495 ∨ theirs.capacity ≤ 65495 ∨ ours.payloadLimit ≤ 65495 := by
    intro side id peerId ours theirs hours htheirs hstart
    by_contra hwide
    obtain ⟨segment, hmem, hpayload⟩ := exists_oversize id peerId hours htheirs hstart (by omega)
      (by omega) (by omega)
    obtain ⟨packet, hencode⟩ := (hall _ side ⟨⟨⟨10, 0, 0, 2⟩, 40000⟩, ⟨⟨10, 0, 0, 1⟩, 80⟩⟩).1
      segment hmem
    have hfits := ((Datagram.encode_eq_ok_iff _ segment packet).mp hencode).1
    omega
  have hnear := hnarrow .near nearId farId settings peer hlinger hpeerLinger rfl
  have hfar := hnarrow .far farId nearId peer settings hpeerLinger hlinger rfl
  unfold Settings.Narrow
  omega

end Fitting

-- Narrow settings are enough for that, and they have to be narrow unless one of the connections
-- cannot tell the end of its lingering and so takes nothing in.
theorem fits_datagrams_iff (nearId farId : Nat) (settings peer : Settings) :
    (settings.Narrow peer → FitsDatagrams nearId farId settings peer) ∧
      (settings.LingerFits → peer.LingerFits →
        FitsDatagrams nearId farId settings peer → settings.Narrow peer) :=
  ⟨fitsDatagrams_of_narrow, narrow_of_fitsDatagrams⟩

-- Both sides have room for more than a datagram carries, and one of them puts all it has into a
-- segment. That fits no datagram.
theorem outgrows_datagram :
    let wide : Settings := { Settings.standard with
      capacity := 70000
      payloadLimit := 65535
      payloadLimit_pos := by decide }
    let roomy : Settings := { Settings.standard with capacity := 70000 }
    let events := openingTurns .near (List.replicate 65496 0)
    ∃ segment ∈ ((ofSettings 1 2 wide roomy).turns events).nearWire,
      ∀ flow, Datagram.encode flow segment = .error (.tooLong 65516 65515) := by
  intro wide roomy events
  have hstart : (ofSettings 1 2 wide roomy).turnTo .near = ofSettings 1 2 wide roomy := rfl
  obtain ⟨segment, hmem, hlength⟩ := exists_oversize 1 2 (by unfold Settings.LingerFits; decide)
    (by unfold Settings.LingerFits; decide) hstart (by decide) (by decide) (by decide)
  refine ⟨segment, hmem, fun flow => ?_⟩
  rw [Datagram.encode, hlength]
  rfl

end Exchange

end UserTcp
