import UserTcp.Proofs.Connection.Events
import UserTcp.Proofs.Connection.Spares
import Mathlib

namespace UserTcp.Connection

variable {connection before middle after : Connection}

-- Between two calls only a broken connection owes an acknowledgment, and that one never sends it.
def Answered (connection : Connection) : Prop :=
  connection.failed = false → connection.ackOwed = false

theorem answered_ofSettings (id : Nat) (settings : Settings) : (ofSettings id settings).Answered :=
  fun _ => rfl

theorem answered_send (connection : Connection) : connection.send.1.Answered := by
  intro hwhole
  rw [failed_send] at hwhole
  rcases connection.send_cases with ⟨hfailed, -⟩ | ⟨-, ⟨-, -, hsend⟩ | ⟨-, hsend⟩⟩
  · rw [hwhole] at hfailed
    cases hfailed
  · rw [hsend]
    rfl
  · rw [hsend]
    rfl

theorem Answered.step (hanswered : connection.Answered) (event : Event) :
    (connection.step event).1.Answered := by
  cases event with
  | send => exact connection.answered_send
  | receive segment =>
      rw [Connection.step]
      by_cases hactive : connection.active = .ok true
      · rw [receive_of_active segment hactive, heed]
        split
        · rename_i hfailed
          intro hwhole
          rw [hfailed] at hwhole
          cases hwhole
        · exact answered_send _
      · rw [receive_of_inactive segment hactive]
        exact hanswered
  | elapse time =>
      rw [Connection.step]
      by_cases hticks : connection.Ticks time
      · have howed := hanswered (failed_of_active hticks.active)
        rw [elapse_of_ticks hticks, wait]
        split
        · exact fun _ => howed
        · exact fun _ => howed
      · rw [elapse_of_not_ticks hticks]
        exact hanswered
  | outgoing op hop =>
      exact fun hwhole => hanswered ((connection.continues_outgoing op).whole hwhole)
  | incoming op hop =>
      exact fun hwhole => hanswered ((connection.continues_incoming op hop).whole hwhole)

-- What others see of a connection that has come to its end.
structure Rests (before after : Connection) : Prop where
  next_eq : after.outbound.next = before.outbound.next
  inFlight_eq : after.outbound.inFlight = before.outbound.inFlight
  timeout_eq : after.outbound.alarm.timeout = before.outbound.alarm.timeout
  retransmissions_eq : after.outbound.retransmissions = before.outbound.retransmissions
  ackno_eq : after.inbound.feedback.ackno = before.inbound.feedback.ackno
  pushed_eq : after.inbound.stream.pushed = before.inbound.stream.pushed

namespace Rests

theorem refl (connection : Connection) : Rests connection connection :=
  ⟨rfl, rfl, rfl, rfl, rfl, rfl⟩

theorem trans (hfirst : Rests before middle) (hsecond : Rests middle after) :
    Rests before after where
  next_eq := hsecond.next_eq.trans hfirst.next_eq
  inFlight_eq := hsecond.inFlight_eq.trans hfirst.inFlight_eq
  timeout_eq := hsecond.timeout_eq.trans hfirst.timeout_eq
  retransmissions_eq := hsecond.retransmissions_eq.trans hfirst.retransmissions_eq
  ackno_eq := hsecond.ackno_eq.trans hfirst.ackno_eq
  pushed_eq := hsecond.pushed_eq.trans hfirst.pushed_eq

end Rests

-- Whoever reads, writes or breaks a stream does not wake a connection up.
theorem Continues.inactive (hcontinues : Continues before after)
    (hlingering : after.lingering = before.lingering) (hinactive : before.active = .ok false) :
    after.active = .ok false := by
  cases hfailed : after.failed with
  | true =>
      obtain ⟨lingering, htold, -⟩ := active_eq_ok_iff.mp hinactive
      exact active_eq_ok_iff.mpr ⟨lingering, hlingering.trans htold, by rw [hfailed]; rfl⟩
  | false =>
      obtain ⟨hfinished, hclosed, hover⟩ := done_of_inactive (hcontinues.whole hfailed) hinactive
      refine active_eq_ok_iff.mpr ⟨false, hlingering.trans hover, ?_⟩
      rw [hfailed, hcontinues.outbound.finished hfinished, hcontinues.inbound.closed_eq, hclosed]
      rfl

-- A broken connection is silent. One that is done has sent its FIN and owes nothing.
theorem send_of_inactive (hanswered : connection.Answered)
    (hinactive : connection.active = .ok false) : connection.send = (connection, []) := by
  cases hfailed : connection.failed with
  | true => rw [send, if_pos hfailed]
  | false =>
      have hdone := (done_of_inactive hfailed hinactive).1
      have hsend := connection.outbound.send_of_finSent (Bool.and_eq_true_iff.mp hdone).1
      have howed := hanswered hfailed
      obtain ⟨id, settings, outbound, inbound, ackOwed, lingers, time, heardAt⟩ := connection
      simp only at hsend howed
      subst howed
      simp only [send, hsend, Bool.and_false, Bool.false_eq_true, ↓reduceIte, List.map_nil,
        ite_self]

-- An event leaves an inactive connection as it is, but for what readers and writers do to the
-- two streams.
theorem rests_step (hanswered : connection.Answered) (hinactive : connection.active = .ok false)
    (event : Event) :
    (connection.step event).2 = [] ∧ (connection.step event).1.active = .ok false ∧
      Rests connection (connection.step event).1 := by
  cases event with
  | send =>
      rw [step, send_of_inactive hanswered hinactive]
      exact ⟨rfl, hinactive, .refl connection⟩
  | receive segment =>
      rw [step, receive_of_inactive segment (not_active hinactive)]
      exact ⟨rfl, hinactive, .refl connection⟩
  | elapse time =>
      rw [step, elapse, elapse?_of_inactive time hinactive]
      exact ⟨rfl, hinactive, .refl connection⟩
  | outgoing op hop =>
      exact ⟨rfl, (connection.continues_outgoing op).inactive rfl hinactive,
        ⟨rfl, rfl, rfl, rfl, rfl, rfl⟩⟩
  | incoming op hop =>
      have hpersists := connection.inbound.persists_apply op hop
      refine ⟨rfl, (connection.continues_incoming op hop).inactive rfl hinactive, ?_⟩
      refine ⟨rfl, rfl, rfl, rfl, ?_, hpersists.pushed_eq⟩
      simp only [step, mapIncoming, Inbound.feedback, Inbound.received, hpersists.initial_eq,
        hpersists.pushed_eq, hpersists.closed_eq]

theorem rests_run (hanswered : connection.Answered) (hinactive : connection.active = .ok false)
    (events : List Event) :
    (connection.run events).2 = [] ∧ (connection.run events).1.active = .ok false ∧
      Rests connection (connection.run events).1 := by
  induction events generalizing connection with
  | nil => exact ⟨rfl, hinactive, .refl connection⟩
  | cons event rest ih =>
      obtain ⟨hsilent, hstill, hrests⟩ := rests_step hanswered hinactive event
      obtain ⟨hothers, hend, hlater⟩ := ih (hanswered.step event) hstill
      exact ⟨by rw [run, hsilent, hothers]; rfl, hend, hrests.trans hlater⟩

-- A connection that is no longer active, for whatever reason, never is again. It sends nothing
-- more and takes nothing more in.
theorem stays_silent (id : Nat) (settings : Settings) (events later : List Event)
    (hinactive : ((ofSettings id settings).run events).1.active = .ok false) :
    let connection := ((ofSettings id settings).run events).1
    let final := (connection.run later).1
    (connection.run later).2 = [] ∧ final.active = .ok false ∧
      final.outbound.next = connection.outbound.next ∧
      final.outbound.inFlight = connection.outbound.inFlight ∧
      final.outbound.alarm.timeout = connection.outbound.alarm.timeout ∧
      final.outbound.retransmissions = connection.outbound.retransmissions ∧
      final.inbound.feedback.ackno = connection.inbound.feedback.ackno ∧
      final.inbound.stream.pushed = connection.inbound.stream.pushed := by
  intro connection final
  have hanswered : connection.Answered :=
    run_keeps Answered (fun _ event hbefore => hbefore.step event) _ events
      (answered_ofSettings id settings)
  obtain ⟨hsilent, hstill, hnext, hinFlight, htimeout, hcount, hackno, hpushed⟩ :=
    rests_run hanswered hinactive later
  exact ⟨hsilent, hstill, hnext, hinFlight, htimeout, hcount, hackno, hpushed⟩

-- This side closes first: its byte and its FIN are acknowledged together with the FIN of the
-- peer, and it stays until ten timeouts have passed.
def lingeredEvents : List Event :=
  [.outgoing (.push [7]) (Pipe.Op.takes_push [7]), .outgoing .close Pipe.Op.takes_close, .send,
    .receive ⟨⟨⟨100⟩, true, [], false, false⟩, ⟨some ⟨1⟩, 1000, false⟩⟩,
    .receive ⟨⟨⟨101⟩, false, [8], true, false⟩, ⟨some ⟨3⟩, 1000, false⟩⟩,
    .elapse 10000]

-- The FIN comes once more, time passes, and the application goes on.
def lateEvents : List Event :=
  [.receive ⟨⟨⟨101⟩, false, [8], true, false⟩, ⟨some ⟨3⟩, 1000, false⟩⟩, .elapse 1000, .send,
    .outgoing (.push [9]) (Pipe.Op.takes_push [9]), .incoming (.read 1) rfl, .incoming .fail rfl, .send]

theorem stays_silent_lingered :
    let connection := ((ofSettings 1 Settings.standard).run lingeredEvents).1
    let final := (connection.run lateEvents).1
    connection.failed = false ∧ connection.active = .ok false ∧ (connection.run lateEvents).2 = [] ∧
      final.active = .ok false ∧ final.outbound.next = 3 ∧
      final.inbound.feedback.ackno = some ⟨103⟩ := by
  intro connection final
  have hdone : (fun ended : Connection => (ended.failed, ended.active, ended.outbound.next,
      ended.inbound.feedback.ackno)) ((ofSettings 1 Settings.standard).run lingeredEvents).1 =
        (false, .ok false, 3, some ⟨103⟩) := by cbv
  simp only [Prod.mk.injEq] at hdone
  obtain ⟨hwhole, hinactive, hnext, hackno⟩ := hdone
  have hsilent := stays_silent 1 Settings.standard lingeredEvents lateEvents hinactive
  exact ⟨hwhole, hinactive, hsilent.1, hsilent.2.1, hsilent.2.2.1.trans hnext,
    hsilent.2.2.2.2.2.2.1.trans hackno⟩

end UserTcp.Connection
