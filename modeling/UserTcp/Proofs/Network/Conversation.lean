import UserTcp.Proofs.Connection.Opening
import UserTcp.Proofs.Network.Queue

namespace UserTcp

namespace Connection

variable {connection : Connection}

-- A connection that has sent nothing so far and is not broken.
structure Mute (connection : Connection) : Prop where
  whole : connection.failed = false
  unsent : connection.outbound.synSent = false
  unended : connection.outbound.finSent = false
  inFlight_eq : connection.outbound.inFlight = 0

namespace Mute

-- Its SYN goes out as soon as it may send.
theorem send (hmute : connection.Mute) :
    ∃ opening rest, connection.send.2 = connection.sending.segment opening :: rest ∧
      opening.syn = true ∧ opening.rst = false := by
  obtain ⟨opening, rest, hfresh, hsyn, hrst⟩ :=
    Outbound.send_of_unsent hmute.unsent hmute.inFlight_eq hmute.unended
  rw [(connection.failed_eq_false.mp hmute.whole).1] at hrst
  rcases connection.send_cases with ⟨hfailed, -⟩ | ⟨-, ⟨hnil, -⟩ | ⟨-, hsend⟩⟩
  · rw [hmute.whole] at hfailed
    cases hfailed
  · rw [hfresh] at hnil
    cases hnil
  · rw [hsend, hfresh]
    exact ⟨opening, _, rfl, hsyn, hrst⟩

theorem send_ne_nil (hmute : connection.Mute) : connection.send.2 ≠ [] := by
  obtain ⟨opening, rest, hsend, -⟩ := hmute.send
  rw [hsend]
  exact List.cons_ne_nil _ _

-- Whatever takes up sequence numbers is answered.
theorem receive_ne_nil (hmute : connection.Mute) (hfits : connection.DeadlineFits)
    {segment : Segment} (hbreaks : segment.breaks = false) (hspan : 0 < segment.chunk.span) :
    (connection.receive segment).2 ≠ [] := by
  have hunfinished : connection.outbound.finished = false := by
    rw [Outbound.finished, hmute.unended]
    rfl
  have hactive := connection.active_of_unfinished hmute.whole hunfinished hfits
  have hfed : (connection.feed segment).failed = false := by
    rw [connection.failed_feed, hbreaks, hmute.whole]
    rfl
  have howed : (connection.feed segment).ackOwed = true := by
    rw [feed, (connection.asksAck_iff segment.chunk).mpr (.inl hspan), Bool.or_true]
  rw [receive_of_active segment hactive, heed, if_neg (by rw [hfed]; exact Bool.false_ne_true)]
  exact Connection.send_ne_nil ((failed_noteClose _).trans hfed) ((ackOwed_noteClose _).trans howed)

theorem incoming (hmute : connection.Mute) (op : Pipe.Op) (hop : op.breaks = false) :
    (connection.mapIncoming fun pipe => (pipe.apply op).2).Mute where
  whole := by
    obtain ⟨houtbound, hinbound⟩ := connection.failed_eq_false.mp hmute.whole
    exact (failed_eq_false _).mpr
      ⟨houtbound, (connection.inbound.stream.failed_apply op hop).trans hinbound⟩
  unsent := hmute.unsent
  unended := hmute.unended
  inFlight_eq := hmute.inFlight_eq

end Mute

end Connection

-- A host whose application has written its stream to the end.
def Host.loaded (id : Nat) (settings : Settings) (data : List UInt8) : Host :=
  (((Host.ofSettings id settings).perform (.outgoing (.push data) (Eq.refl false))).1.perform
    (.outgoing .close (Eq.refl false))).1

theorem Host.written_loaded (id : Nat) (settings : Settings) (data : List UInt8)
    (hfits : data.length ≤ settings.capacity) : (loaded id settings data).written = data := by
  have haccepted := Pipe.accepted_of_fits (Pipe.empty settings.capacity) data rfl hfits
  simp only [loaded, perform, Pipe.Op.added, List.append_nil]
  exact haccepted

theorem Host.mute_loaded (id : Nat) (settings : Settings) (data : List UInt8) :
    (loaded id settings data).connection.Mute :=
  ⟨rfl, rfl, rfl, rfl⟩

-- The application takes all that there is for it.
def Host.readAll (host : Host) : Host :=
  (host.perform (.incoming (.read host.connection.inbound.stream.buffered) rfl)).1

theorem Host.buffer_readAll (host : Host) :
    host.readAll.connection.inbound.stream.buffer = [] := by
  simp only [readAll, perform, Connection.mapIncoming, Inbound.stream_mapStream, Pipe.apply,
    Pipe.read_eq, Pipe.pop, Pipe.buffered, List.drop_length]

-- A host that can take nothing, as its clock never shows the end of the lingering, but something
-- is on the way to it, or it has opened and the other side has yet to answer.
structure Stranded (host peer : Host) (ours theirs : List Parcel) : Prop where
  lingers : host.connection.lingers = true
  unfit : ¬host.connection.settings.LingerFits
  waits : theirs ≠ [] ∨ peer.connection.Mute ∧ ∃ parcel rest, ours = parcel :: rest ∧
    parcel.segment.breaks = false ∧ 0 < parcel.segment.chunk.span

namespace Stranded

variable {host peer : Host} {ours theirs : List Parcel}

theorem not_deadlineFits (hstranded : Stranded host peer ours theirs) :
    ¬host.connection.DeadlineFits := by
  intro hfits
  have huntil := hfits hstranded.lingers
  exact hstranded.unfit (Nat.lt_of_le_of_lt (Nat.le_add_left _ _) huntil)

theorem not_silent (hstranded : Stranded host peer ours theirs) : ¬(ours = [] ∧ theirs = []) := by
  rintro ⟨hours, htheirs⟩
  rcases hstranded.waits with hne | ⟨-, parcel, rest, hparcel, -⟩
  · exact hne htheirs
  · rw [hours] at hparcel
    cases hparcel

section Start

variable (id peerId : Nat) {settings : Settings} (peerSettings : Settings)
  (data peerData : List UInt8) (hunfit : ¬settings.LingerFits)
include hunfit

-- The SYN of the host is on the way, and the other side has sent nothing yet.
theorem opens (hpos : 0 < settings.capacity) :
    Stranded ((Host.loaded id settings data).perform .send).1
      (Host.loaded peerId peerSettings peerData)
      ((Host.loaded id settings data).perform .send).2 [] := by
  obtain ⟨opening, rest, hsend, hsyn, hrst⟩ := (Host.mute_loaded id settings data).send
  refine ⟨(Connection.continues_send _).lingers_eq, ?_, .inr ⟨Host.mute_loaded _ _ _, ?_⟩⟩
  · rw [Host.perform, Host.act, Connection.settings_send]
    exact hunfit
  · rw [Host.perform, Host.act, hsend]
    exact ⟨_, _, rfl, Connection.breaks_segment rfl hpos hrst, opening.span_pos_of_syn hsyn⟩

theorem opened :
    Stranded (Host.loaded id settings data)
      ((Host.loaded peerId peerSettings peerData).perform .send).1 []
      ((Host.loaded peerId peerSettings peerData).perform .send).2 :=
  ⟨rfl, hunfit,
    .inl (List.map_eq_nil_iff.not.mpr (Host.mute_loaded peerId peerSettings peerData).send_ne_nil)⟩

end Start

theorem send (hstranded : Stranded host peer ours theirs) :
    Stranded (host.act host.connection.send).1 peer (ours ++ (host.act host.connection.send).2)
      theirs := by
  refine ⟨(host.connection.continues_send.lingers_eq).trans hstranded.lingers,
    by rw [Host.act, Connection.settings_send]; exact hstranded.unfit,
    hstranded.waits.imp_right ?_⟩
  rintro ⟨hpeer, parcel, rest, rfl, hparcel⟩
  exact ⟨hpeer, parcel, _, rfl, hparcel⟩

theorem peer_send (hstranded : Stranded host peer ours theirs) :
    Stranded host (peer.act peer.connection.send).1 ours
      (theirs ++ (peer.act peer.connection.send).2) := by
  refine ⟨hstranded.lingers, hstranded.unfit, .inl ?_⟩
  rcases hstranded.waits with hne | ⟨hpeer, -⟩
  · exact List.append_ne_nil_of_left_ne_nil hne _
  · exact List.append_ne_nil_of_right_ne_nil _ (List.map_eq_nil_iff.not.mpr hpeer.send_ne_nil)

-- What has come to the other side is answered, and the host does not take the answer.
theorem peer_receive {parcel : Parcel} {rest : List Parcel}
    (hstranded : Stranded host peer (parcel :: rest) theirs)
    (hfits : peer.connection.DeadlineFits) :
    Stranded host (peer.receive parcel).1 rest (theirs ++ (peer.receive parcel).2) := by
  refine ⟨hstranded.lingers, hstranded.unfit, .inl ?_⟩
  rcases hstranded.waits with hne | ⟨hpeer, first, others, hours, hbreaks, hspan⟩
  · exact List.append_ne_nil_of_left_ne_nil hne _
  · obtain ⟨rfl, -⟩ := List.cons.inj hours
    exact List.append_ne_nil_of_right_ne_nil _
      (List.map_eq_nil_iff.not.mpr (hpeer.receive_ne_nil hfits hbreaks hspan))

theorem readAll (hstranded : Stranded host peer ours theirs) :
    Stranded host.readAll peer.readAll ours theirs :=
  ⟨hstranded.lingers, hstranded.unfit,
    hstranded.waits.imp_right fun ⟨hpeer, hours⟩ => ⟨hpeer.incoming _ rfl, hours⟩⟩

end Stranded

namespace Exchange

-- Both applications read.
def readAll (exchange : Exchange Host Parcel) : Exchange Host Parcel :=
  { exchange with near := exchange.near.readAll, far := exchange.far.readAll }

-- A side gets the oldest parcel that is on the way to it, and what came is read.
def converse? (exchange : Exchange Host Parcel) (side : Side) : Option (Exchange Host Parcel) :=
  (exchange.serve? side).map readAll

def converseAll? (exchange : Exchange Host Parcel) : List Side → Option (Exchange Host Parcel)
  | [] => some exchange
  | side :: rest =>
      match exchange.converse? side with
      | none => none
      | some next => next.converseAll? rest

-- A side sends what it can before anything has come to it.
def greet (exchange : Exchange Host Parcel) (side : Side) : Exchange Host Parcel :=
  let sent := (exchange.party side).perform .send
  exchange.put side sent.1 sent.2

def Drained (exchange : Exchange Host Parcel) : Prop :=
  ∀ side, (exchange.party side).connection.inbound.stream.buffer = []

variable {exchange next final : Exchange Host Parcel} {side : Side}

theorem drained_readAll (exchange : Exchange Host Parcel) : exchange.readAll.Drained := by
  intro side
  cases side
  · exact exchange.near.buffer_readAll
  · exact exchange.far.buffer_readAll

theorem stranded_greet (hstranded : exchange.Relates Stranded side) (other : Side) :
    (exchange.greet other).Relates Stranded side := by
  cases side <;> cases other
  · exact Stranded.send hstranded
  · exact Stranded.peer_send hstranded
  · exact Stranded.peer_send hstranded
  · exact Stranded.send hstranded

theorem stranded_greetAll (hstranded : exchange.Relates Stranded side) (openers : List Side) :
    (openers.foldl greet exchange).Relates Stranded side := by
  induction openers generalizing exchange with
  | nil => exact hstranded
  | cons first rest ih => exact ih (stranded_greet hstranded first)

-- It is always the other side that is served.
theorem stranded_converse (hstranded : exchange.Relates Stranded side) {other : Side}
    (hconverse : exchange.converse? other = some next) : next.Relates Stranded side := by
  obtain ⟨served, hserve, rfl⟩ := Option.map_eq_some_iff.mp hconverse
  obtain ⟨parcel, rest, hwire, hfits, hnext⟩ := cases_of_serve hserve
  have hafter : Stranded (exchange.peer other) (exchange.party other) (exchange.incoming other)
      (exchange.turnTo other).nearWire →
        served.Relates (fun host peer ours theirs => Stranded peer host theirs ours) other := by
    intro hturned
    rw [hwire] at hturned
    exact hnext _ (hturned.peer_receive hfits)
  cases side <;> cases other
  · exact absurd hfits (Stranded.not_deadlineFits hstranded)
  · exact Stranded.readAll (hafter hstranded)
  · exact Stranded.readAll (hafter hstranded)
  · exact absurd hfits (Stranded.not_deadlineFits hstranded)

theorem stranded_converseAll (hstranded : exchange.Relates Stranded side) (sides : List Side)
    (hconverse : exchange.converseAll? sides = some final) : final.Relates Stranded side := by
  induction sides generalizing exchange with
  | nil =>
      obtain rfl := Option.some.inj hconverse
      exact hstranded
  | cons first rest ih =>
      simp only [converseAll?] at hconverse
      split at hconverse
      · cases hconverse
      · rename_i next hnext
        exact ih (stranded_converse hstranded hnext) hconverse

theorem not_silent_of_stranded (hstranded : exchange.Relates Stranded side) :
    ¬(exchange.nearWire = [] ∧ exchange.farWire = []) := by
  have hwaits := Stranded.not_silent hstranded
  cases side with
  | near => exact hwaits
  | far => exact fun hsilent => hwaits hsilent.symm

-- With a clock that is too short on either side the wires never run empty again.
theorem exists_stranded (id peerId : Nat) (settings peerSettings : Settings)
    (data peerData : List UInt8) (hroomy : 0 < settings.capacity)
    (hpeerRoomy : 0 < peerSettings.capacity)
    (hunfit : ¬(settings.LingerFits ∧ peerSettings.LingerFits)) (openers : List Side)
    (hopened : openers ≠ []) :
    ∃ side, (openers.foldl greet (ofParties (Host.loaded id settings data)
      (Host.loaded peerId peerSettings peerData))).Relates Stranded side := by
  obtain ⟨first, rest, rfl⟩ := List.exists_cons_of_ne_nil hopened
  rcases not_and_or.mp hunfit with hours | htheirs
  · refine ⟨.near, stranded_greetAll ?_ rest⟩
    cases first with
    | near => exact Stranded.opens id peerId peerSettings data peerData hours hroomy
    | far => exact Stranded.opened id peerId peerSettings data peerData hours
  · refine ⟨.far, stranded_greetAll ?_ rest⟩
    cases first with
    | near => exact Stranded.opened peerId id settings peerData data htheirs
    | far => exact Stranded.opens peerId id settings peerData data htheirs hpeerRoomy

end Exchange

end UserTcp
