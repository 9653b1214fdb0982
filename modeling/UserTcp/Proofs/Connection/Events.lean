import UserTcp.Proofs.Connection.Speaks
import UserTcp.Proofs.Outbound.Portions

namespace UserTcp.Connection

-- What can happen to a connection. Its application writes to the outgoing stream and reads from
-- the incoming one, and may break either of them.
inductive Event where
  | send
  | receive (segment : Segment)
  | elapse (time : Millis)
  | outgoing (op : Pipe.Op) (hop : op.takes = false)
  | incoming (op : Pipe.Op) (hop : op.feeds = false)

def step (connection : Connection) : Event → Connection × List Segment
  | .send => connection.send
  | .receive segment => connection.receive segment
  | .elapse time => connection.elapse time
  | .outgoing op _ => (connection.mapOutgoing fun pipe => (pipe.apply op).2, [])
  | .incoming op _ => (connection.mapIncoming fun pipe => (pipe.apply op).2, [])

-- Events one after another, with all the segments that they send.
def run (connection : Connection) : List Event → Connection × List Segment
  | [] => (connection, [])
  | event :: rest =>
      let stepped := connection.step event
      let others := stepped.1.run rest
      (others.1, stepped.2 ++ others.2)

-- An event, with what it tells of a call that overflow cuts short.
def step? (connection : Connection) : Event → Except Overflow (Connection × List Segment)
  | .receive segment => connection.receive? segment
  | .elapse time => connection.elapse? time
  | event => .ok (connection.step event)

-- Events one after another, as long as no call is cut short.
def run? (connection : Connection) : List Event → Except Overflow (Connection × List Segment)
  | [] => .ok (connection, [])
  | event :: rest =>
      (connection.step? event).bind fun stepped =>
        (stepped.1.run? rest).map fun others => (others.1, stepped.2 ++ others.2)

theorem step_eq_leave (connection : Connection) (event : Event) :
    connection.step event = connection.leave (connection.step? event) := by
  cases event <;> rfl

theorem step_of_step? {connection : Connection} {event : Event}
    {stepped : Connection × List Segment} (hstep : connection.step? event = .ok stepped) :
    connection.step event = stepped := by
  rw [step_eq_leave, hstep]
  rfl

-- A run in which no call is cut short has a first step and a rest like that.
theorem run?_cons_eq_ok_iff {connection : Connection} {event : Event} {rest : List Event}
    {reached : Connection × List Segment} :
    connection.run? (event :: rest) = .ok reached ↔
      ∃ stepped others, connection.step? event = .ok stepped ∧
        stepped.1.run? rest = .ok others ∧ (others.1, stepped.2 ++ others.2) = reached := by
  rw [run?]
  cases hstep : connection.step? event with
  | error cause => exact ⟨nofun, fun ⟨_, _, hstepped, _⟩ => nomatch hstepped⟩
  | ok stepped =>
      rw [Except.bind]
      cases hrest : stepped.1.run? rest with
      | error cause =>
          refine ⟨nofun, fun ⟨first, others, hfirst, hothers, _⟩ => ?_⟩
          cases hfirst
          rw [hrest] at hothers
          cases hothers
      | ok others =>
          rw [Except.map, Except.ok.injEq]
          refine ⟨fun hsame => ⟨stepped, others, rfl, hrest, hsame⟩, ?_⟩
          rintro ⟨first, second, hfirst, hsecond, hsame⟩
          cases hfirst
          rw [hrest, Except.ok.injEq] at hsecond
          rw [hsecond, hsame]

theorem run_of_run? {connection : Connection} {events : List Event}
    {reached : Connection × List Segment} (hrun : connection.run? events = .ok reached) :
    connection.run events = reached := by
  induction events generalizing connection reached with
  | nil => exact Except.ok.inj hrun
  | cons event rest ih =>
      obtain ⟨stepped, others, hstep, hrest, rfl⟩ := run?_cons_eq_ok_iff.mp hrun
      rw [run, step_of_step? hstep, ih hrest]

theorem run_singleton (connection : Connection) (event : Event) :
    connection.run [event] = connection.step event := by
  simp only [run, List.append_nil]

theorem run?_singleton (connection : Connection) (event : Event) :
    connection.run? [event] = connection.step? event := by
  simp only [run?, Except.map, List.append_nil]
  cases connection.step? event <;> rfl

theorem run_append (connection : Connection) (first second : List Event) :
    (connection.run (first ++ second)).1 = ((connection.run first).1.run second).1 := by
  induction first generalizing connection with
  | nil => rfl
  | cons event rest ih => exact ih _

-- How much time an event tells a connection of.
def Event.millis : Event → Nat
  | .elapse time => time.toNat
  | _ => 0

def millis : List Event → Nat
  | [] => 0
  | event :: rest => event.millis + millis rest

theorem millis_append (first second : List Event) :
    millis (first ++ second) = millis first + millis second := by
  induction first with
  | nil => exact (Nat.zero_add _).symm
  | cons event rest ih => rw [List.cons_append, millis, millis, ih, Nat.add_assoc]

theorem run_keeps (property : Connection → Prop)
    (hstep : ∀ connection event, property connection → property (connection.step event).1)
    (connection : Connection) (events : List Event) (hstart : property connection) :
    property (connection.run events).1 := by
  induction events generalizing connection with
  | nil => exact hstart
  | cons event rest ih => exact ih _ (hstep connection event hstart)

-- A connection does nothing with its sending half but what can happen to a sender.
theorem outbound_step (connection : Connection) (event : Event) :
    ∃ events : List Outbound.Event,
      (connection.step event).1.outbound = connection.outbound.afterAll events := by
  cases event with
  | send =>
      rcases connection.outbound_send with hsame | hsent
      · exact ⟨[], hsame⟩
      · exact ⟨[.send], hsent⟩
  | receive segment =>
      rcases connection.receive_cases segment with hsame | hbroken | hanswered
      · exact ⟨[], by rw [step, hsame]; rfl⟩
      · exact ⟨[.receive segment.feedback], by rw [step, hbroken]; rfl⟩
      · rw [step, hanswered]
        rcases (connection.feed segment).noteClose.outbound_send with hsame | hsent
        · exact ⟨[.receive segment.feedback], by rw [hsame, outbound_noteClose]; rfl⟩
        · exact ⟨[.receive segment.feedback, .send], by rw [hsent, outbound_noteClose]; rfl⟩
  | elapse time =>
      rw [step]
      by_cases hticks : connection.Ticks time
      · rw [elapse_of_ticks hticks, wait]
        split
        · exact ⟨[.elapse time, .input .fail], rfl⟩
        · exact ⟨[.elapse time], rfl⟩
      · rw [elapse_of_not_ticks hticks]
        exact ⟨[], rfl⟩
  | outgoing op hop => exact ⟨[.input op], rfl⟩
  | incoming op hop => exact ⟨[], rfl⟩

-- What holds of a sender whatever happens to it, holds of the sending half of a connection.
theorem outbound_step_keeps (property : Outbound → Prop)
    (hafter : ∀ outbound event, property outbound → property (outbound.after event))
    (connection : Connection) (event : Event) (hstart : property connection.outbound) :
    property (connection.step event).1.outbound := by
  obtain ⟨events, hevents⟩ := connection.outbound_step event
  rw [hevents]
  exact List.foldlRecOn events _ hstart fun outbound hbefore event _ =>
    hafter outbound event hbefore

@[simp] theorem settings_step (connection : Connection) (event : Event) :
    (connection.step event).1.settings = connection.settings := by
  cases event with
  | send => exact connection.settings_send
  | receive segment =>
      rcases connection.receive_cases segment with hsame | hbroken | hanswered
      · rw [step, hsame]
      · rw [step, hbroken]
        rfl
      · rw [step, hanswered, settings_send, settings_noteClose]
        rfl
  | elapse time =>
      rw [step]
      by_cases hticks : connection.Ticks time
      · rw [elapse_of_ticks hticks, wait]
        split <;> rfl
      · rw [elapse_of_not_ticks hticks]
  | outgoing op hop => rfl
  | incoming op hop => rfl

-- Every segment carries a chunk that waits for its acknowledgment, or an empty one.
theorem emits_step (connection : Connection) (event : Event) :
    (connection.step event).1.Emits (connection.step event).2 := by
  cases event with
  | send => exact connection.emits_send
  | receive segment => exact connection.emits_receive segment
  | elapse time => exact connection.emits_elapse time
  | outgoing op hop => exact emits_nil _
  | incoming op hop => exact emits_nil _

-- No segment carries more than the sender of the connection puts into a chunk.
theorem portioned_step {connection : Connection} {limit : Nat}
    (hportioned : connection.outbound.Portioned limit) (event : Event) :
    (connection.step event).1.outbound.Portioned limit ∧
      ∀ segment ∈ (connection.step event).2, segment.chunk.payload.length ≤ limit := by
  have hafter := connection.outbound_step_keeps (Outbound.Portioned · limit)
    (fun outbound event hbefore => hbefore.after event) event hportioned
  refine ⟨hafter, fun segment hmem => ?_⟩
  rcases (connection.emits_step event).chunk segment hmem with hempty | ⟨flight, hflight, hchunk⟩
  · unfold Chunk.span at hempty
    omega
  · rw [← hchunk]
    exact hafter.payload_le flight hflight

theorem portioned_run {connection : Connection} {limit : Nat}
    (hportioned : connection.outbound.Portioned limit) (events : List Event) :
    (connection.run events).1.outbound.Portioned limit ∧
      ∀ segment ∈ (connection.run events).2, segment.chunk.payload.length ≤ limit := by
  induction events generalizing connection with
  | nil => exact ⟨hportioned, nofun⟩
  | cons event rest ih =>
      obtain ⟨hafter, hfirst⟩ := portioned_step hportioned event
      obtain ⟨hlast, hothers⟩ := ih hafter
      refine ⟨hlast, fun segment hmem => ?_⟩
      exact (List.mem_append.mp hmem).elim (hfirst segment) (hothers segment)

end UserTcp.Connection
