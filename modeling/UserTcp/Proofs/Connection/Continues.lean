import UserTcp.Proofs.Connection.Calls
import UserTcp.Proofs.Inbound.Ends
import UserTcp.Proofs.Outbound.Persists

namespace UserTcp.Connection

-- What every step of a connection leaves alone other than to take a segment.
structure Continues (before after : Connection) : Prop where
  lingers_eq : after.lingers = before.lingers
  outbound : Outbound.Persists before.outbound after.outbound
  inbound : Inbound.Persists before.inbound after.inbound

theorem failed_eq_false (connection : Connection) :
    connection.failed = false ↔
      connection.outbound.input.failed = false ∧ connection.inbound.stream.failed = false :=
  Bool.or_eq_false_iff

-- There is no way back from a reset.
theorem Continues.whole {before after : Connection} (hcontinues : Continues before after)
    (hwhole : after.failed = false) : before.failed = false := by
  obtain ⟨houtbound, hinbound⟩ := after.failed_eq_false.mp hwhole
  exact before.failed_eq_false.mpr
    ⟨hcontinues.outbound.whole houtbound, hcontinues.inbound.whole hinbound⟩

theorem continues_send (connection : Connection) : Continues connection connection.send.1 where
  lingers_eq := by
    simp only [send]
    split
    · rfl
    · split <;> rfl
  outbound := by
    rcases connection.outbound_send with hsame | hsent
    · rw [hsame]
      exact .refl _
    · rw [hsent]
      exact connection.outbound.persists_send
  inbound := by
    rw [inbound_send]
    exact .refl _

theorem continues_elapse (connection : Connection) {written : List UInt8}
    (hsends : connection.outbound.Sends written) (time : Millis) :
    Continues connection (connection.elapse time).1 where
  lingers_eq := by
    by_cases hticks : connection.Ticks time
    · rw [elapse_of_ticks hticks, wait]
      split <;> rfl
    · rw [elapse_of_not_ticks hticks]
  outbound := (connection.settles_elapse hsends time).persists
  inbound := by
    rcases connection.inbound_elapse time with hsame | hfail
    · rw [hsame]
      exact .refl _
    · rw [hfail]
      exact connection.inbound.persists_apply .fail rfl

theorem continues_outgoing (connection : Connection) (op : Pipe.Op) :
    Continues connection (connection.mapOutgoing fun pipe => (pipe.apply op).2) where
  lingers_eq := rfl
  outbound := connection.outbound.persists_apply op
  inbound := .refl _

theorem continues_incoming (connection : Connection) (op : Pipe.Op) (hop : op.feeds = false) :
    Continues connection (connection.mapIncoming fun pipe => (pipe.apply op).2) where
  lingers_eq := rfl
  outbound := .refl _
  inbound := connection.inbound.persists_apply op hop

theorem failed_of_failed_feed (connection : Connection) (segment : Segment) {written : List UInt8}
    (hsends : connection.outbound.Sends written)
    (hwhole : (connection.feed segment).failed = false) : connection.failed = false := by
  obtain ⟨houtbound, hinbound⟩ := (connection.feed segment).failed_eq_false.mp hwhole
  exact connection.failed_eq_false.mpr
    ⟨(hsends.settles_receive segment.feedback).persists.whole houtbound,
      connection.inbound.failed_of_failed_receive segment.chunk hinbound⟩

end UserTcp.Connection
