import UserTcp.Proofs.Connection.Events
import UserTcp.Proofs.Connection.Spares
import Mathlib

namespace UserTcp

open Connection (Event)

-- A connection with its two times counted without a bound. Those that it counts itself are not
-- looked at.
structure Unbounded where
  connection : Connection
  time : Nat
  heardAt : Nat

namespace Unbounded

variable {unbounded : Unbounded}

def ofSettings (id : Nat) (settings : Settings) : Unbounded :=
  ⟨Connection.ofSettings id settings, 0, 0⟩

def lingerEnd (unbounded : Unbounded) : Nat :=
  unbounded.heardAt +
    Connection.lingerTimeouts.toNat * unbounded.connection.settings.timeout.toNat

def lingering (unbounded : Unbounded) : Bool :=
  unbounded.connection.lingers && decide (unbounded.time < unbounded.lingerEnd)

def active (unbounded : Unbounded) : Bool :=
  !unbounded.connection.failed &&
    (!unbounded.connection.outbound.finished || !unbounded.connection.inbound.stream.closed ||
      unbounded.lingering)

def step (unbounded : Unbounded) : Event → Unbounded × List Segment
  | .receive segment =>
      if unbounded.active then
        let heeded := unbounded.connection.heed segment
        (⟨heeded.1, unbounded.time, unbounded.time⟩, heeded.2)
      else (unbounded, [])
  | .elapse time =>
      if unbounded.active then
        let later := { unbounded.connection with time := unbounded.connection.time + time }
        let waited := later.wait time
        (⟨waited.1, unbounded.time + time.toNat, unbounded.heardAt⟩, waited.2)
      else (unbounded, [])
  | event =>
      let stepped := unbounded.connection.step event
      ({ unbounded with connection := stepped.1 }, stepped.2)

def run (unbounded : Unbounded) : List Event → Unbounded × List Segment
  | [] => (unbounded, [])
  | event :: rest =>
      let stepped := unbounded.step event
      let others := stepped.1.run rest
      (others.1, stepped.2 ++ others.2)

-- The sums that would have to fit 64 bits: the one for the end of the lingering as long as there
-- may be any, and the one for the time of an active connection.
def DeadlineFits (unbounded : Unbounded) : Prop :=
  unbounded.connection.lingers = true → unbounded.lingerEnd < 2 ^ 64

def Fits (unbounded : Unbounded) : Event → Prop
  | .receive _ => unbounded.DeadlineFits
  | .elapse time => unbounded.DeadlineFits ∧
      (unbounded.active = true → unbounded.time + time.toNat < 2 ^ 64)
  | _ => True

-- What was heard last is not later than now, and now is not later than the time told.
structure Timed (unbounded : Unbounded) (told : Nat) : Prop where
  heardAt_le : unbounded.heardAt ≤ unbounded.time
  time_le : unbounded.time ≤ told

theorem Timed.step {told : Nat} (htimed : unbounded.Timed told) (event : Event) :
    (unbounded.step event).1.Timed (told + event.millis) := by
  obtain ⟨hheardAt, htime⟩ := htimed
  cases event with
  | receive segment =>
      simp only [Unbounded.step]
      split
      · exact ⟨Nat.le_refl _, htime⟩
      · exact ⟨hheardAt, htime⟩
  | elapse time =>
      simp only [Unbounded.step]
      split
      · exact ⟨Nat.le_add_right_of_le hheardAt, Nat.add_le_add_right htime _⟩
      · exact ⟨hheardAt, Nat.le_add_right_of_le htime⟩
  | send => exact ⟨hheardAt, htime⟩
  | outgoing op hop => exact ⟨hheardAt, htime⟩
  | incoming op hop => exact ⟨hheardAt, htime⟩

theorem Timed.fits {told : Nat} (htimed : unbounded.Timed told) (event : Event)
    (hroom : told + event.millis +
      Connection.lingerTimeouts.toNat * unbounded.connection.settings.timeout.toNat < 2 ^ 64) :
    unbounded.DeadlineFits ∧ unbounded.Fits event := by
  obtain ⟨hheardAt, htime⟩ := htimed
  have hdeadline : unbounded.DeadlineFits := by
    intro _
    rw [lingerEnd]
    omega
  refine ⟨hdeadline, ?_⟩
  cases event with
  | receive segment => exact hdeadline
  | elapse time =>
      refine ⟨hdeadline, fun _ => ?_⟩
      simp only [Event.millis] at hroom
      omega
  | _ => exact trivial

end Unbounded

namespace Connection

variable {connection : Connection} {unbounded : Unbounded}

-- A connection and one whose times have no bound are in the same state.
structure Agrees (connection : Connection) (unbounded : Unbounded) : Prop where
  connection_eq : unbounded.connection = connection
  time_eq : connection.time.toNat = unbounded.time
  heardAt_eq : connection.heardAt.toNat = unbounded.heardAt

namespace Agrees

theorem lingersUntil_eq (hagrees : connection.Agrees unbounded) :
    connection.lingersUntil = unbounded.lingerEnd := by
  rw [lingersUntil, Unbounded.lingerEnd, hagrees.heardAt_eq, hagrees.connection_eq]

-- It can be told whether a connection is active when the one without a bound stays below it, and
-- then it is when that one is.
theorem active_eq_ok_iff (hagrees : connection.Agrees unbounded) {active : Bool} :
    connection.active = .ok active ↔ unbounded.DeadlineFits ∧ unbounded.active = active := by
  have huntil := hagrees.lingersUntil_eq
  obtain ⟨rfl, htime, -⟩ := hagrees
  rw [Connection.active_eq_ok_iff, Unbounded.DeadlineFits, Unbounded.active, Unbounded.lingering]
  simp only [lingering_eq_ok_iff, DeadlineFits, huntil, htime, and_assoc, exists_and_left,
    exists_eq_left']

theorem step?_iff (hagrees : connection.Agrees unbounded) (event : Event) :
    (∃ stepped, connection.step? event = .ok stepped) ↔ unbounded.Fits event := by
  have htells : (∃ active, connection.active = .ok active) ↔ unbounded.DeadlineFits := by
    simp only [hagrees.active_eq_ok_iff, exists_and_left, exists_eq', and_true]
  cases event with
  | receive segment => exact (exists_receive?_iff segment).trans htells
  | elapse time =>
      refine (exists_elapse?_iff time).trans ?_
      rw [htells, hagrees.active_eq_ok_iff, hagrees.time_eq, Unbounded.Fits]
      exact and_congr_right fun hfits => by simp only [hfits, true_and]
  | send => simp only [step?, Unbounded.Fits, Except.ok.injEq, exists_eq']
  | outgoing op hop => simp only [step?, Unbounded.Fits, Except.ok.injEq, exists_eq']
  | incoming op hop => simp only [step?, Unbounded.Fits, Except.ok.injEq, exists_eq']

-- What a call that is not cut short does.
theorem step (hagrees : connection.Agrees unbounded) {event : Event}
    {stepped : Connection × List Segment} (hstep : connection.step? event = .ok stepped) :
    stepped.1.Agrees (unbounded.step event).1 ∧ (unbounded.step event).2 = stepped.2 := by
  have hfits := (hagrees.step?_iff event).mp ⟨stepped, hstep⟩
  have hactive : ∀ {active : Bool}, unbounded.DeadlineFits → unbounded.active = active →
      connection.active = .ok active := fun hdeadline hsame =>
    hagrees.active_eq_ok_iff.mpr ⟨hdeadline, hsame⟩
  rw [← step_of_step? hstep]
  obtain ⟨rfl, htime, hheardAt⟩ := hagrees
  cases event with
  | send =>
      obtain ⟨hsame, hheard⟩ := times_send unbounded.connection
      exact ⟨⟨rfl, hsame.symm ▸ htime, hheard.symm ▸ hheardAt⟩, rfl⟩
  | receive segment =>
      simp only [Connection.step, Unbounded.step]
      split
      · rename_i hawake
        obtain ⟨hsame, hheard⟩ := times_heed unbounded.connection segment
        rw [receive_of_active segment (hactive hfits hawake)]
        exact ⟨⟨rfl, hsame.symm ▸ htime, hheard.symm ▸ htime⟩, rfl⟩
      · rename_i hasleep
        have hinactive := hactive hfits (eq_false_of_ne_true hasleep)
        rw [receive_of_inactive segment (not_active hinactive)]
        exact ⟨⟨rfl, htime, hheardAt⟩, rfl⟩
  | elapse time =>
      obtain ⟨hdeadline, hroom⟩ := hfits
      simp only [Connection.step, Unbounded.step]
      split
      · rename_i hawake
        have hsum : unbounded.connection.time.toNat + time.toNat < 2 ^ 64 :=
          htime ▸ hroom hawake
        obtain ⟨hlater, hheard⟩ :=
          times_wait { unbounded.connection with time := unbounded.connection.time + time } time
        rw [elapse_of_ticks ⟨hactive hdeadline hawake, hsum⟩]
        refine ⟨⟨rfl, ?_, hheard.symm ▸ hheardAt⟩, rfl⟩
        rw [hlater, UInt64.toNat_add, Nat.mod_eq_of_lt hsum, htime]
      · rename_i hasleep
        have hinactive := hactive hdeadline (eq_false_of_ne_true hasleep)
        rw [elapse_of_not_ticks fun hticks => not_active hinactive hticks.active]
        exact ⟨⟨rfl, htime, hheardAt⟩, rfl⟩
  | outgoing op hop => exact ⟨⟨rfl, htime, hheardAt⟩, rfl⟩
  | incoming op hop => exact ⟨⟨rfl, htime, hheardAt⟩, rfl⟩

theorem run (hagrees : connection.Agrees unbounded) {events : List Event}
    {reached : Connection × List Segment} (hrun : connection.run? events = .ok reached) :
    reached.1.Agrees (unbounded.run events).1 ∧ (unbounded.run events).2 = reached.2 := by
  induction events generalizing connection unbounded reached with
  | nil =>
      rw [← Except.ok.inj hrun]
      exact ⟨hagrees, rfl⟩
  | cons event rest ih =>
      obtain ⟨stepped, others, hstep, hrest, rfl⟩ := run?_cons_eq_ok_iff.mp hrun
      obtain ⟨hnext, hsent⟩ := hagrees.step hstep
      obtain ⟨hlast, hothers⟩ := ih hnext hrest
      exact ⟨hlast, congrArg₂ (· ++ ·) hsent hothers⟩

-- With room for all that is told and ten timeouts more, no call is cut short.
theorem exists_run? {told : Nat} (hagrees : connection.Agrees unbounded)
    (htimed : unbounded.Timed told) (events : List Event)
    (hroom : told + millis events +
      lingerTimeouts.toNat * connection.settings.timeout.toNat < 2 ^ 64) :
    ∃ reached active, connection.run? events = .ok reached ∧ reached.1.active = .ok active := by
  induction events generalizing connection unbounded told with
  | nil =>
      have hfits := (htimed.fits .send (by rwa [hagrees.connection_eq])).1
      exact ⟨_, _, rfl, hagrees.active_eq_ok_iff.mpr ⟨hfits, rfl⟩⟩
  | cons event rest ih =>
      rw [millis] at hroom
      have hfits := (htimed.fits event (by rw [hagrees.connection_eq]; omega)).2
      obtain ⟨stepped, hstep⟩ := (hagrees.step?_iff event).mpr hfits
      have hsettings : stepped.1.settings = connection.settings := by
        rw [← step_of_step? hstep, settings_step]
      obtain ⟨others, active, hrest, hactive⟩ := ih (hagrees.step hstep).1 (htimed.step event)
        (by rw [hsettings]; omega)
      exact ⟨_, active, run?_cons_eq_ok_iff.mpr ⟨stepped, others, hstep, hrest, rfl⟩, hactive⟩

end Agrees

-- A segment that neither opens nor ends anything.
def idleSegment : Segment :=
  ⟨⟨⟨0⟩, false, [], false, false⟩, ⟨none, 1, false⟩⟩

-- A new connection is told of some time and then hears of its peer.
theorem le_of_run?_late (id : Nat) (settings : Settings) (time : Millis)
    {reached : Connection × List Segment} {active : Bool}
    (hrun : (ofSettings id settings).run? [.elapse time, .receive idleSegment] = .ok reached)
    (hactive : reached.1.active = .ok active) :
    time.toNat + lingerTimeouts.toNat * settings.timeout.toNat < 2 ^ 64 := by
  have hstart : (ofSettings id settings).Agrees (Unbounded.ofSettings id settings) :=
    ⟨rfl, rfl, rfl⟩
  obtain ⟨hagrees, -⟩ := hstart.run hrun
  have hdeadline := (hagrees.active_eq_ok_iff.mp hactive).1
  have hsettings : reached.1.settings = settings := by
    rw [← congrArg Prod.fst (run_of_run? hrun), run, run, run, settings_step, settings_step]
    rfl
  have hend : ((Unbounded.ofSettings id settings).run
      [.elapse time, .receive idleSegment]).1.heardAt = 0 + time.toNat := rfl
  have hreached : ((Unbounded.ofSettings id settings).run
      [.elapse time, .receive idleSegment]).1.connection =
        ({ ofSettings id settings with time := 0 + time }.feed idleSegment).send.1 := rfl
  have hlingers : ((Unbounded.ofSettings id settings).run
      [.elapse time, .receive idleSegment]).1.connection.lingers = true := by
    rw [hreached, (continues_send _).lingers_eq]
    rfl
  have hfits := hdeadline hlingers
  rw [Unbounded.lingerEnd, hend, hagrees.connection_eq, hsettings, Nat.zero_add] at hfits
  exact hfits

-- No call of a connection is cut short by overflow as long as all that it is told of and ten
-- timeouts have a place in 64 bits together, and no larger bound on what it is told would do.
-- Up to the first call that is cut short it does and sends the same as if it counted without a
-- bound, is active when it would be then, and the call that is cut short is the first one to need
-- a sum which the 64 bits have no place for.
theorem times_right_iff (id : Nat) (settings : Settings) :
    (∀ total, (∀ events, millis events ≤ total → ∃ reached active,
        (ofSettings id settings).run? events = .ok reached ∧ reached.1.active = .ok active) ↔
      total + lingerTimeouts.toNat * settings.timeout.toNat < 2 ^ 64) ∧
    ∀ events reached, (ofSettings id settings).run? events = .ok reached →
      let unbounded := (Unbounded.ofSettings id settings).run events
      unbounded.1.connection = reached.1 ∧ unbounded.2 = reached.2 ∧
        reached.1.time.toNat = unbounded.1.time ∧ reached.1.heardAt.toNat = unbounded.1.heardAt ∧
        (∀ active, reached.1.active = .ok active ↔
          unbounded.1.DeadlineFits ∧ unbounded.1.active = active) ∧
        ∀ event, (∃ stepped, reached.1.step? event = .ok stepped) ↔ unbounded.1.Fits event := by
  have hstart : (ofSettings id settings).Agrees (Unbounded.ofSettings id settings) :=
    ⟨rfl, rfl, rfl⟩
  refine ⟨fun total => ⟨fun hall => ?_, fun hroom events hevents => ?_⟩,
    fun events reached hrun => ?_⟩
  · have hbound := Nat.min_le_left total (2 ^ 64 - 1)
    have htime : (UInt64.ofNat (min total (2 ^ 64 - 1))).toNat = min total (2 ^ 64 - 1) :=
      UInt64.toNat_ofNat_of_lt' (by simp only [UInt64.size]; omega)
    have htold : millis [.elapse (UInt64.ofNat (min total (2 ^ 64 - 1))), .receive idleSegment] ≤
        total := by
      simp only [millis, Event.millis]
      omega
    obtain ⟨reached, active, hrun, hactive⟩ := hall _ htold
    have hsum := le_of_run?_late id settings _ hrun hactive
    have hpos : 0 < settings.timeout.toNat := UInt64.lt_iff_toNat_lt.mp settings.timeout_pos
    have hten : lingerTimeouts.toNat = 10 := rfl
    rw [htime, hten] at hsum
    rw [hten]
    omega
  · have htimed : (Unbounded.ofSettings id settings).Timed 0 := ⟨Nat.le_refl 0, Nat.le_refl 0⟩
    refine hstart.exists_run? htimed events ?_
    change 0 + millis events + lingerTimeouts.toNat * settings.timeout.toNat < 2 ^ 64
    omega
  · intro unbounded
    obtain ⟨hagrees, hsent⟩ := hstart.run hrun
    exact ⟨hagrees.connection_eq, hsent, hagrees.time_eq, hagrees.heardAt_eq,
      fun active => hagrees.active_eq_ok_iff, hagrees.step?_iff⟩

-- This side closes first, and the FIN of the peer comes with the acknowledgment of its own.
def partingFin : Segment :=
  ⟨⟨⟨101⟩, false, [], true, false⟩, ⟨some ⟨2⟩, 1000, false⟩⟩

def partingEvents : List Event :=
  [.outgoing .close Pipe.Op.takes_close, .send,
    .receive ⟨⟨⟨100⟩, true, [], false, false⟩, ⟨some ⟨1⟩, 1000, false⟩⟩, .receive partingFin]

-- Ten times this timeout fit no 64 bits, so it can never be told whether the connection is active,
-- and the first segment that comes cuts the run short. Without a bound it would answer all of them
-- and go on lingering. Two long waits are too much with every timeout.
theorem overflows_at_once :
    let settings : Settings :=
      { Settings.standard with timeout := 9223372036854775808, timeout_pos := by decide }
    let unbounded := ((Unbounded.ofSettings 1 settings).run partingEvents).1
    (ofSettings 1 settings).active = .error .product ∧
      (ofSettings 1 settings).run? partingEvents = .error .product ∧
      unbounded.active = true ∧
      (unbounded.step (.receive partingFin)).2.map (·.feedback.ackno) = [some ⟨102⟩] ∧
      (ofSettings 1 Settings.standard).run?
        [.elapse Millis.ceiling, .elapse Millis.ceiling] = .error .sum := by
  intro settings unbounded
  exact ⟨by cbv, by cbv, by decide +kernel, by decide +kernel, by cbv⟩

end Connection

end UserTcp
