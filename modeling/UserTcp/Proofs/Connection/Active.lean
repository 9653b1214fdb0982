import UserTcp.Connection.Basic
import Mathlib.Algebra.Group.Nat.Defs

namespace UserTcp

-- The longest lingering, for a connection that has just been set up, has a place on the clock.
def Settings.LingerFits (settings : Settings) : Prop :=
  Connection.lingerTimeouts.toNat * settings.timeout.toNat < 2 ^ 64

namespace Connection

variable {connection : Connection}

-- The end of the lingering, counted without a bound.
def lingersUntil (connection : Connection) : Nat :=
  connection.heardAt.toNat + lingerTimeouts.toNat * connection.settings.timeout.toNat

-- The clock can show that end, if there is to be any lingering.
def DeadlineFits (connection : Connection) : Prop :=
  connection.lingers = true → connection.lingersUntil < 2 ^ 64

theorem deadlineFits_ofSettings (id : Nat) (settings : Settings) :
    (ofSettings id settings).DeadlineFits ↔ settings.LingerFits := by
  have huntil : (ofSettings id settings).lingersUntil =
      lingerTimeouts.toNat * settings.timeout.toNat := Nat.zero_add _
  rw [DeadlineFits, huntil, Settings.LingerFits]
  exact ⟨fun hfits => hfits rfl, fun hfits _ => hfits⟩

theorem lingerEnd_eq_ok_iff {limit : Millis} :
    connection.lingerEnd = .ok limit ↔ limit.toNat = connection.lingersUntil := by
  have hlimit := UInt64.toNat_lt limit
  change (Millis.mulChecked lingerTimeouts connection.settings.timeout).bind
    (Millis.addChecked connection.heardAt) = .ok limit ↔ _
  constructor
  · intro hend
    cases hperiod : Millis.mulChecked lingerTimeouts connection.settings.timeout with
    | error cause =>
        rw [hperiod] at hend
        cases hend
    | ok period =>
        rw [hperiod] at hend
        rw [lingersUntil, ← Millis.mulChecked_eq_ok_iff.mp hperiod]
        exact Millis.addChecked_eq_ok_iff.mp hend
  · intro hend
    rw [lingersUntil] at hend
    have hperiod : (lingerTimeouts * connection.settings.timeout).toNat =
        lingerTimeouts.toNat * connection.settings.timeout.toNat := by
      rw [UInt64.toNat_mul]
      omega
    rw [Millis.mulChecked_eq_ok_iff.mpr hperiod]
    refine Millis.addChecked_eq_ok_iff.mpr ?_
    rw [hend, hperiod]

theorem lingering_eq_ok_iff {lingering : Bool} :
    connection.lingering = .ok lingering ↔ connection.DeadlineFits ∧
      (connection.lingers && decide (connection.time.toNat < connection.lingersUntil)) =
        lingering := by
  unfold Connection.lingering DeadlineFits
  cases connection.lingers with
  | false => simp only [Bool.false_eq_true, ↓reduceIte, Except.ok.injEq, false_implies, true_and,
      Bool.false_and]
  | true =>
      simp only [↓reduceIte, true_implies, Bool.true_and]
      cases hend : connection.lingerEnd with
      | error cause =>
          refine ⟨nofun, fun ⟨hfits, _⟩ => ?_⟩
          have hlimit : (UInt64.ofNat connection.lingersUntil).toNat = connection.lingersUntil :=
            UInt64.toNat_ofNat_of_lt' hfits
          rw [lingerEnd_eq_ok_iff.mpr hlimit] at hend
          cases hend
      | ok limit =>
          have hlimit := lingerEnd_eq_ok_iff.mp hend
          have hfits := UInt64.toNat_lt limit
          rw [hlimit] at hfits
          rw [Except.map, Except.ok.injEq, ← hlimit]
          exact ⟨fun hsame => ⟨hlimit ▸ hfits, hsame⟩, fun ⟨_, hsame⟩ => hsame⟩

theorem active_eq_ok_iff {active : Bool} :
    connection.active = .ok active ↔ ∃ lingering, connection.lingering = .ok lingering ∧
      (!connection.failed && (!connection.outbound.finished ||
        !connection.inbound.stream.closed || lingering)) = active := by
  rw [Connection.active]
  cases connection.lingering with
  | error cause => exact ⟨nofun, fun ⟨_, hlingering, _⟩ => nomatch hlingering⟩
  | ok lingering =>
      simp only [Except.map, Except.ok.injEq, exists_eq_left']

-- Whether a connection is active can be told as long as the clock can show the end of lingering.
theorem exists_active_iff :
    (∃ active, connection.active = .ok active) ↔ connection.DeadlineFits := by
  constructor
  · rintro ⟨active, hactive⟩
    obtain ⟨lingering, hlingering, -⟩ := active_eq_ok_iff.mp hactive
    exact (lingering_eq_ok_iff.mp hlingering).1
  · intro hfits
    exact ⟨_, active_eq_ok_iff.mpr ⟨_, lingering_eq_ok_iff.mpr ⟨hfits, rfl⟩, rfl⟩⟩

-- Who does not listen any more without being broken has nothing left to send or to hear, and
-- does not linger.
theorem done_of_inactive (hwhole : connection.failed = false)
    (hinactive : connection.active = .ok false) :
    connection.outbound.finished = true ∧ connection.inbound.stream.closed = true ∧
      connection.lingering = .ok false := by
  rw [active_eq_ok_iff] at hinactive
  obtain ⟨lingering, hlingering, hdone⟩ := hinactive
  rw [hwhole, Bool.not_false, Bool.true_and, Bool.or_eq_false_iff, Bool.or_eq_false_iff,
    Bool.not_eq_false', Bool.not_eq_false'] at hdone
  exact ⟨hdone.1.1, hdone.1.2, hdone.2 ▸ hlingering⟩

theorem failed_of_active (hactive : connection.active = .ok true) : connection.failed = false := by
  obtain ⟨lingering, -, hholds⟩ := active_eq_ok_iff.mp hactive
  rw [Bool.and_eq_true, Bool.not_eq_true'] at hholds
  exact hholds.1

theorem not_active (hinactive : connection.active = .ok false) : connection.active ≠ .ok true :=
  fun hactive => nomatch hinactive.symm.trans hactive

theorem exists_receive?_iff (segment : Segment) :
    (∃ left, connection.receive? segment = .ok left) ↔
      ∃ active, connection.active = .ok active := by
  rw [receive?]
  cases connection.active with
  | error cause => simp only [Except.map, reduceCtorEq, exists_false]
  | ok active => simp only [Except.map, Except.ok.injEq, exists_eq']

theorem receive_of_active (segment : Segment) (hactive : connection.active = .ok true) :
    connection.receive segment = connection.heed segment := by
  rw [receive, receive?, hactive]
  rfl

theorem receive_of_inactive (segment : Segment) (hinactive : connection.active ≠ .ok true) :
    connection.receive segment = (connection, []) := by
  rw [receive, receive?]
  cases hactive : connection.active with
  | error cause => rfl
  | ok active =>
      cases active with
      | false => rfl
      | true => exact absurd hactive hinactive

theorem elapse?_of_active (time : Millis) (hactive : connection.active = .ok true) :
    connection.elapse? time = (Millis.addChecked connection.time time).map fun total =>
      { connection with time := total }.wait time := by
  rw [elapse?, hactive]
  change (Millis.addChecked connection.time time).bind _ = _
  cases Millis.addChecked connection.time time <;> rfl

theorem elapse?_of_inactive (time : Millis) (hinactive : connection.active = .ok false) :
    connection.elapse? time = .ok (connection, []) := by
  rw [elapse?, hinactive]
  rfl

theorem elapse?_of_error (time : Millis) {cause : Overflow}
    (herror : connection.active = .error cause) : connection.elapse? time = .error cause := by
  rw [elapse?, herror]
  rfl

-- An active connection whose clock has room for some more time.
structure Ticks (connection : Connection) (time : Millis) : Prop where
  active : connection.active = .ok true
  fits : connection.time.toNat + time.toNat < 2 ^ 64

theorem elapse?_of_ticks {time : Millis} (hticks : connection.Ticks time) :
    connection.elapse? time =
      .ok ({ connection with time := connection.time + time }.wait time) := by
  have hsum : (connection.time + time).toNat = connection.time.toNat + time.toNat :=
    (UInt64.toNat_add _ _).trans (Nat.mod_eq_of_lt hticks.fits)
  rw [elapse?_of_active time hticks.active, Millis.addChecked_eq_ok_iff.mpr hsum]
  rfl

theorem elapse?_of_full {time : Millis} (hactive : connection.active = .ok true)
    (hfull : ¬connection.Ticks time) : connection.elapse? time = .error .sum := by
  have hlost : ¬connection.time.toNat + time.toNat ≤ Millis.ceiling.toNat := by
    intro hfits
    rw [Millis.toNat_ceiling] at hfits
    exact hfull ⟨hactive, by omega⟩
  rw [elapse?_of_active time hactive, Millis.addChecked, if_neg hlost]
  rfl

theorem elapse_of_ticks {time : Millis} (hticks : connection.Ticks time) :
    connection.elapse time = { connection with time := connection.time + time }.wait time := by
  rw [elapse, elapse?_of_ticks hticks]
  rfl

theorem elapse_of_not_ticks {time : Millis} (hstands : ¬connection.Ticks time) :
    connection.elapse time = (connection, []) := by
  rw [elapse]
  cases hactive : connection.active with
  | error cause =>
      rw [elapse?_of_error time hactive]
      rfl
  | ok active =>
      cases active with
      | false =>
          rw [elapse?_of_inactive time hactive]
          rfl
      | true =>
          rw [elapse?_of_full hactive hstands]
          rfl

theorem exists_elapse?_iff (time : Millis) :
    (∃ left, connection.elapse? time = .ok left) ↔
      (∃ active, connection.active = .ok active) ∧
        (connection.active = .ok true → connection.time.toNat + time.toNat < 2 ^ 64) := by
  cases hactive : connection.active with
  | error cause =>
      rw [elapse?_of_error time hactive]
      simp only [reduceCtorEq, exists_false, false_and]
  | ok active =>
      cases active with
      | false =>
          rw [elapse?_of_inactive time hactive]
          simp only [Except.ok.injEq, exists_eq', Bool.false_eq_true, false_implies, and_true]
      | true =>
          simp only [Except.ok.injEq, exists_eq', true_implies, true_and]
          refine ⟨fun ⟨left, hleft⟩ => Nat.lt_of_not_le fun hlost => ?_, fun hfits =>
            ⟨_, elapse?_of_ticks ⟨hactive, hfits⟩⟩⟩
          have hfull : ¬connection.Ticks time := fun hticks =>
            Nat.not_lt.mpr hlost hticks.fits
          rw [elapse?_of_full hactive hfull] at hleft
          cases hleft

end Connection

end UserTcp
