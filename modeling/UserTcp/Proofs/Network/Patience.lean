import UserTcp.Proofs.Network.Serene

namespace UserTcp

-- What happens where nothing is lost and everything comes in its turn: a host is called, or
-- the oldest parcel on the way to it comes.
inductive Deed where
  | call (side : Side) (call : Host.Call)
  | serve (side : Side)

-- Nothing that was written is taken back.
theorem Host.written_le_perform (host : Host) (call : Host.Call) :
    host.written.length ≤ (host.perform call).1.written.length := by
  cases call with
  | send => exact Nat.le_refl _
  | elapse time => exact Nat.le_refl _
  | outgoing op hop =>
      change _ ≤ (host.written ++ op.added host.connection.outbound.input).length
      rw [List.length_append]
      exact Nat.le_add_right _ _
  | incoming op hop => exact Nat.le_refl _

namespace Exchange

-- Time passes only while nothing is on the way, and no application breaks a stream itself.
def allows (exchange : Exchange Host Parcel) : Host.Call → Bool
  | .send => true
  | .elapse _ => exchange.nearWire.isEmpty && exchange.farWire.isEmpty
  | .outgoing op _ => !op.breaks
  | .incoming op _ => !op.breaks

def step? (exchange : Exchange Host Parcel) : Deed → Option (Exchange Host Parcel)
  | .call side call => if exchange.allows call then exchange.move? (.call side call) else none
  | .serve side => exchange.serve? side

def steps? (exchange : Exchange Host Parcel) : List Deed → Option (Exchange Host Parcel)
  | [] => some exchange
  | deed :: rest =>
      match exchange.step? deed with
      | none => none
      | some next => next.steps? rest

-- The next parcel for a side takes up sequence numbers and finds no room.
def refuses (exchange : Exchange Host Parcel) (side : Side) : Bool :=
  (exchange.incoming side).head?.any (fun parcel => decide (0 < parcel.segment.chunk.span)) &&
    decide ((exchange.party side).connection.inbound.stream.free = 0)

-- Whoever is refused can still send again without giving up.
def bears (exchange : Exchange Host Parcel) : Deed → Bool
  | .call _ _ => true
  | .serve side =>
      let sender := (exchange.peer side).connection
      !exchange.refuses side ||
        decide (sender.outbound.retransmissions < sender.settings.retransmissionLimit)

def patient (exchange : Exchange Host Parcel) : List Deed → Bool
  | [] => true
  | deed :: rest => exchange.bears deed && (exchange.step? deed).all fun next => next.patient rest

variable {exchange next final : Exchange Host Parcel}

theorem short_of_step {deed : Deed} (hstep : exchange.step? deed = some next)
    (hshort : next.Short) : exchange.Short := by
  intro side
  have hside := hshort side
  cases deed with
  | call on call =>
      simp only [step?] at hstep
      split at hstep
      · obtain rfl := Option.some.inj hstep
        have hgrows := Nat.add_le_add_right ((exchange.party on).written_le_perform call) 2
        cases on <;> cases side
        · exact Nat.lt_of_le_of_lt hgrows hside
        · exact hside
        · exact hside
        · exact Nat.lt_of_le_of_lt hgrows hside
      · cases hstep
  | serve on => exact written_serve hstep side ▸ hside

theorem short_of_steps {deeds : List Deed} (hsteps : exchange.steps? deeds = some final)
    (hshort : final.Short) : exchange.Short := by
  induction deeds generalizing exchange with
  | nil =>
      obtain rfl := Option.some.inj hsteps
      exact hshort
  | cons deed rest ih =>
      simp only [steps?] at hsteps
      split at hsteps
      · cases hsteps
      · rename_i next hstep
        exact short_of_step hstep (ih hsteps)

theorem serene_call {patience : Settings → Nat} {side : Side}
    (hserene : exchange.Relates (Serene patience) side)
    (hlimit : ∀ settings, patience settings ≤ settings.retransmissionLimit) {call : Host.Call}
    (hallows : exchange.allows call = true) (hmove : exchange.move? (.call side call) = some next) :
    next.Relates (Serene patience) side := by
  obtain rfl := Option.some.inj hmove
  refine Preserved.put side ?_
  cases call with
  | send => exact hserene.send
  | elapse time =>
      obtain ⟨hnear, hfar⟩ := Bool.and_eq_true_iff.mp hallows
      have hours : (exchange.turnTo side).nearWire = [] := by
        cases side
        · exact List.isEmpty_iff.mp hnear
        · exact List.isEmpty_iff.mp hfar
      have htheirs : exchange.incoming side = [] := by
        cases side
        · exact List.isEmpty_iff.mp hfar
        · exact List.isEmpty_iff.mp hnear
      unfold Relates at hserene
      rw [hours, htheirs] at hserene ⊢
      exact hserene.elapse hlimit time
  | outgoing op hop =>
      have hwhole : op.breaks = false := (Bool.not_eq_true' _).mp hallows
      have hafter := Serene.outgoing hserene op hop hwhole
      exact (List.append_nil _).symm ▸ hafter
  | incoming op hop =>
      have hwhole : op.breaks = false := (Bool.not_eq_true' _).mp hallows
      have hafter := Serene.incoming hserene op hop hwhole
      exact (List.append_nil _).symm ▸ hafter

theorem serene_serve {patience : Settings → Nat} {side : Side}
    (hserene : exchange.Relates (Serene patience) side) (hshort : exchange.Short)
    (hserve : exchange.serve? side = some next)
    (hguard : exchange.refuses side = true →
      (exchange.peer side).connection.outbound.retransmissions <
        patience (exchange.peer side).connection.settings) :
    next.Relates (Serene patience) side := by
  obtain ⟨parcel, rest, hwire, hfits, hnext⟩ := cases_of_serve hserve
  unfold Relates at hserene
  rw [hwire] at hserene
  refine hnext _ (hserene.receive ?_ ?_ hfits fun hspan hfull => hguard ?_)
  · exact Nat.lt_of_le_of_lt hserene.parting.linked.out.sends.next_le (hshort side)
  · exact Nat.lt_of_le_of_lt hserene.parting.linked.back.sends.next_le (hshort.peer side)
  · simp only [refuses, hwire, List.head?_cons, Option.any_some, hspan, hfull, decide_true,
      Bool.and_self]

theorem serene_step {side : Side}
    (hserene : exchange.Relates (Serene Settings.retransmissionLimit) side) (hshort : exchange.Short)
    {deed : Deed} (hbears : exchange.bears deed = true) (hstep : exchange.step? deed = some next) :
    next.Relates (Serene Settings.retransmissionLimit) side := by
  cases deed with
  | call on call =>
      simp only [step?] at hstep
      split at hstep
      · rename_i hallows
        exact (serene_call (hserene.turn Serene.swap on) (fun _ => Nat.le_refl _) hallows
          hstep).turn Serene.swap side
      · cases hstep
  | serve on =>
      refine (serene_serve (hserene.turn Serene.swap on) hshort hstep fun hrefuses => ?_).turn
        Serene.swap side
      simpa only [bears, hrefuses, Bool.not_true, Bool.false_or, decide_eq_true_eq] using hbears

theorem serene_steps {side : Side} {deeds : List Deed}
    (hserene : exchange.Relates (Serene Settings.retransmissionLimit) side)
    (hsteps : exchange.steps? deeds = some final) (hpatient : exchange.patient deeds = true)
    (hshort : final.Short) : final.Relates (Serene Settings.retransmissionLimit) side := by
  induction deeds generalizing exchange with
  | nil =>
      obtain rfl := Option.some.inj hsteps
      exact hserene
  | cons deed rest ih =>
      have hbefore := short_of_steps hsteps hshort
      simp only [steps?] at hsteps
      simp only [patient, Bool.and_eq_true] at hpatient
      split at hsteps
      · cases hsteps
      · rename_i next hstep
        rw [hstep, Option.all_some] at hpatient
        exact ih (serene_step hserene hbefore hpatient.1 hstep) hsteps hpatient.2

-- Where nothing is lost, no connection is given up for an application that takes its time, as
-- long as it makes room before a probe was refused more often than the sender may send again.
theorem bears_with_full_receiver (id peerId : Nat) (settings peerSettings : Settings)
    (deeds : List Deed) (exchange : Exchange Host Parcel) (hroomy : 0 < settings.capacity)
    (hpeerRoomy : 0 < peerSettings.capacity)
    (hsteps : (ofParties (Host.ofSettings id settings)
      (Host.ofSettings peerId peerSettings)).steps? deeds = some exchange)
    (hpatient : (ofParties (Host.ofSettings id settings)
      (Host.ofSettings peerId peerSettings)).patient deeds = true)
    (hshort : exchange.Short) (side : Side) :
    (exchange.party side).connection.failed = false ∧
      ∀ parcel ∈ exchange.incoming side, parcel.segment.rst = false := by
  have hstart : (ofParties (Host.ofSettings id settings)
      (Host.ofSettings peerId peerSettings)).Relates (Serene Settings.retransmissionLimit) side := by
    cases side
    · exact Serene.start _ id peerId settings peerSettings hroomy hpeerRoomy
    · exact Serene.start _ peerId id peerSettings settings hpeerRoomy hroomy
  have hserene := serene_steps hstart hsteps hpatient hshort
  exact ⟨hserene.whole, hserene.peerClean⟩

-- Two bytes for a peer with room for one, and how the first of them comes to it.
def cramped : Settings := { Settings.standard with capacity := 1 }

def toCramped : Exchange Host Parcel :=
  ofParties (Host.ofSettings 1 Settings.standard) (Host.ofSettings 2 cramped)

def fillingDeeds : List Deed :=
  [.call .near (.outgoing (.push [1, 2]) (.refl false)), .call .near .send, .serve .far,
    .serve .near, .serve .far, .serve .near]

-- The second byte is refused and answered, and when the alarm is due it goes out again.
def probingDeeds : List Deed :=
  [.serve .far, .serve .near, .call .near (.elapse 1000)]

-- It comes in when the first one has been read.
def readingDeeds : List Deed :=
  [.call .far (.incoming (.read 1) (.refl false)), .serve .far, .serve .near]

theorem bears_with_full_receiver_reading :
    ∃ exchange, toCramped.steps? (fillingDeeds ++ probingDeeds ++ probingDeeds ++ readingDeeds) =
        some exchange ∧
      exchange.far.received = [1, 2] ∧ exchange.near.connection.outbound.flights = [] ∧
      exchange.near.connection.failed = false ∧
      ∀ parcel ∈ exchange.nearWire, parcel.segment.rst = false := by
  have hreading : (toCramped.steps?
      (fillingDeeds ++ probingDeeds ++ probingDeeds ++ readingDeeds)).map (fun exchange =>
        (exchange.far.received, exchange.near.connection.outbound.flights, exchange.near.written,
          exchange.far.written)) = some ([1, 2], [], [1, 2], []) := by cbv
  have hpatient : toCramped.patient
      (fillingDeeds ++ probingDeeds ++ probingDeeds ++ readingDeeds) = true := by cbv
  obtain ⟨exchange, hsteps, hresult⟩ := Option.map_eq_some_iff.mp hreading
  simp only [Prod.mk.injEq] at hresult
  obtain ⟨hreceived, hflights, hnear, hfar⟩ := hresult
  have hshort : exchange.Short := by
    intro side
    cases side
    · exact hnear ▸ by decide
    · exact hfar ▸ by decide
  have hbears := bears_with_full_receiver 1 2 Settings.standard cramped _ exchange (by decide)
    (by decide) hsteps hpatient hshort
  exact ⟨exchange, hsteps, hreceived, hflights, (hbears .near).1, (hbears .far).2⟩

-- When nobody reads, the ninth probe is the last: the sender gives up a peer that has answered
-- every time.
theorem abandons_full_receiver :
    ∃ exchange, toCramped.steps? (fillingDeeds ++ (List.replicate 9 probingDeeds).flatten) =
        some exchange ∧
      exchange.near.connection.failed = true ∧
      ∃ parcel ∈ exchange.nearWire, parcel.segment.rst = true := by
  have habandons : (toCramped.steps? (fillingDeeds ++ (List.replicate 9 probingDeeds).flatten)).map
      (fun exchange => (exchange.near.connection.failed,
        exchange.nearWire.any fun parcel => parcel.segment.rst)) = some (true, true) := by cbv
  obtain ⟨exchange, hsteps, hresult⟩ := Option.map_eq_some_iff.mp habandons
  obtain ⟨hfailed, hrst⟩ := Prod.mk.inj hresult
  obtain ⟨parcel, hmem, hreset⟩ := List.any_eq_true.mp hrst
  exact ⟨exchange, hsteps, hfailed, parcel, hmem, hreset⟩

end Exchange

end UserTcp
