import UserTcp.Proofs.Socket.Offers
import UserTcp.Proofs.Socket.Relay
import UserTcp.Socket.Session

namespace UserTcp

namespace Terminal

-- All that the connection of a terminal is told in the course of some calls.
def history (terminal : Terminal) : List Call → List Connection.Event
  | [] => []
  | call :: rest => terminal.events call ++ (terminal.after call).history rest

-- For how many microseconds the clock goes on in the meantime.
def Call.waited : Call → Nat
  | .wait microseconds => microseconds
  | _ => 0

def waited : List Call → Nat
  | [] => 0
  | call :: rest => call.waited + waited rest

theorem connection_foldl_after (terminal : Terminal) (calls : List Call) :
    (calls.foldl after terminal).socket.connection =
      (terminal.socket.connection.run (terminal.history calls)).1 := by
  induction calls generalizing terminal with
  | nil => rfl
  | cons call rest ih =>
      rw [history, Connection.run_append]
      exact ih _

theorem now_foldl_after (terminal : Terminal) (calls : List Call) :
    (calls.foldl after terminal).now = terminal.now + waited calls := by
  induction calls generalizing terminal with
  | nil => rfl
  | cons call rest ih =>
      have hnow : (terminal.after call).now = terminal.now + call.waited := by
        cases call <;> rfl
      rw [List.foldl_cons, ih, hnow, waited, Nat.add_assoc]

-- Only a report tells the connection of time.
theorem millis_events (terminal : Terminal) (call : Call) :
    Connection.millis (terminal.events call) =
      match call with
      | .catchUp => (terminal.socket.unreported terminal.now).toNat
      | _ => 0 := by
  cases call with
  | catchUp =>
      change Connection.millis (if terminal.socket.unreported terminal.now = 0 then []
        else [.elapse (terminal.socket.unreported terminal.now)]) = _
      split
      · rename_i hnone
        simp only [hnone]
        rfl
      · rfl
  | handle datagram =>
      simp only [events]
      cases terminal.heard datagram <;> rfl
  | _ => rfl

-- It notes just the time that it tells of.
theorem reportedAfter_eq (terminal : Terminal) (call : Call) :
    terminal.reportedAfter call =
      terminal.socket.reported + Connection.millis (terminal.events call) * 1000 := by
  rw [millis_events]
  cases call with
  | catchUp => rfl
  | _ => exact congrArg (terminal.socket.reported + ·) (Nat.zero_mul 1000).symm

theorem reported_foldl_after (terminal : Terminal) (calls : List Call) :
    (calls.foldl after terminal).socket.reported =
      terminal.socket.reported + Connection.millis (terminal.history calls) * 1000 := by
  induction calls generalizing terminal with
  | nil => rw [history, Connection.millis, Nat.zero_mul]; rfl
  | cons call rest ih =>
      have hcall : (terminal.after call).socket.reported = terminal.reportedAfter call := rfl
      rw [List.foldl_cons, ih, hcall, reportedAfter_eq, history, Connection.millis_append]
      omega

theorem reported_foldl_le {terminal : Terminal} (hle : terminal.socket.reported ≤ terminal.now)
    (calls : List Call) :
    (calls.foldl after terminal).socket.reported ≤ (calls.foldl after terminal).now :=
  List.foldlRecOn (motive := fun (terminal : Terminal) => terminal.socket.reported ≤ terminal.now)
    calls after hle fun _ hbefore call _ => reportedAfter_le hbefore call

theorem performAll_append {link : Type} [Link link] (terminal : Terminal) (carrier : link)
    (first second : List Call) :
    terminal.performAll carrier (first ++ second) =
      (terminal.performAll carrier first).1.performAll (terminal.performAll carrier first).2
        second := by
  induction first generalizing terminal carrier with
  | nil => rfl
  | cons call rest ih => exact ih _ _

-- After a report less than a millisecond is left, unless there was more to report than 64 bits hold.
theorem now_lt_of_catchUp (terminal : Terminal)
    (hspan : terminal.now - terminal.socket.reported < 1000 * 2 ^ 64) :
    (terminal.after .catchUp).now < (terminal.after .catchUp).socket.reported + 1000 := by
  have htime : (terminal.socket.unreported terminal.now).toNat =
      (terminal.now - terminal.socket.reported) / 1000 :=
    UInt64.toNat_ofNat_of_lt' (Nat.div_lt_of_lt_mul hspan)
  change terminal.now < terminal.socket.reported +
    (terminal.socket.unreported terminal.now).toNat * 1000 + 1000
  omega

end Terminal

-- The calls that a session makes because of what its link answers.
def Arrival.calls : Arrival → List Terminal.Call
  | .datagram bytes => [.handle (bytes.take Socket.datagramLimit)]
  | .nothing => []
  | .failed _ => []

namespace Session

section Calls

variable {link : Type} [Link link]

-- The calls of one turn. The first that fails is the last.
def turnCalls (session : Session link) (event : LinkEvent) : List Terminal.Call :=
  let taken := take { session with now := session.now + event.microseconds } event.arrival
  .wait event.microseconds :: (event.arrival.calls ++
    match taken.2 with
    | .error _ => []
    | .ok () =>
        match taken.1.catchUp.2 with
        | .error _ => [.catchUp]
        | .ok () => [.catchUp, .read])

def calls (session : Session link) : List LinkEvent → List Terminal.Call
  | [] => []
  | event :: rest =>
      match session.socket.active with
      | .ok true =>
          session.turnCalls event ++
            match session.turn event with
            | (_, .error _) => []
            | (next, .ok ()) => next.calls rest
      | _ => []

-- A terminal that stands where a session does: the same socket, the same link, the same time.
structure At (session : Session link) (reached : Terminal × link) : Prop where
  socket_eq : reached.1.socket = session.socket
  carrier_eq : reached.2 = session.carrier
  now_eq : reached.1.now = session.now

variable {session : Session link} {reached : Terminal × link}

theorem At.wait (hat : session.At reached) (microseconds : Nat) :
    At { session with now := session.now + microseconds }
      (reached.1.performAll reached.2 [.wait microseconds]) :=
  ⟨hat.socket_eq, hat.carrier_eq, congrArg (· + microseconds) hat.now_eq⟩

theorem At.take (hat : session.At reached) (arrival : Arrival) :
    (session.take arrival).1.At (reached.1.performAll reached.2 arrival.calls) := by
  obtain ⟨terminal, carrier⟩ := reached
  obtain ⟨socket, carrier', now, sink⟩ := session
  obtain ⟨rfl, rfl, rfl⟩ := hat
  cases arrival with
  | datagram bytes => exact ⟨rfl, rfl, rfl⟩
  | nothing => exact ⟨rfl, rfl, rfl⟩
  | failed reason => exact ⟨rfl, rfl, rfl⟩

theorem At.catchUp (hat : session.At reached) :
    session.catchUp.1.At (reached.1.performAll reached.2 [.catchUp]) := by
  obtain ⟨terminal, carrier⟩ := reached
  obtain ⟨socket, carrier', now, sink⟩ := session
  obtain ⟨rfl, rfl, rfl⟩ := hat
  exact ⟨rfl, rfl, rfl⟩

theorem At.copy (hat : session.At reached) :
    session.copy.1.At (reached.1.performAll reached.2 [.read]) := by
  obtain ⟨terminal, carrier⟩ := reached
  obtain ⟨socket, carrier', now, sink⟩ := session
  obtain ⟨rfl, rfl, rfl⟩ := hat
  exact ⟨rfl, rfl, rfl⟩

theorem At.turn (hat : session.At reached) (event : LinkEvent) :
    (session.turn event).1.At (reached.1.performAll reached.2 (session.turnCalls event)) := by
  have hat := (hat.wait event.microseconds).take event.arrival
  rw [← Terminal.performAll_append] at hat
  simp only [Session.turn, turnCalls]
  cases htaken : Session.take { session with now := session.now + event.microseconds }
    event.arrival with
  | mk taken result =>
      rw [htaken] at hat
      cases result with
      | error failure =>
          rw [List.append_nil]
          exact hat
      | ok done =>
          have hcaught := hat.catchUp
          rw [← Terminal.performAll_append] at hcaught
          cases hresult : taken.catchUp with
          | mk caught outcome =>
              rw [hresult] at hcaught
              simp only [andThen, hresult]
              cases outcome with
              | error failure => exact hcaught
              | ok done =>
                  have hcopied := hcaught.copy
                  rw [← Terminal.performAll_append, List.append_assoc, List.append_assoc]
                    at hcopied
                  exact hcopied

-- A session does nothing to its socket and its link but the calls that it makes.
theorem At.run (hat : session.At reached) (script : List LinkEvent) :
    (session.run script).1.At (reached.1.performAll reached.2 (session.calls script)) := by
  fun_induction Session.run session script generalizing reached with
  | case1 session cause hcut => exact hat
  | case2 session hactive => exact hat
  | case3 session hidle => exact hat
  | case4 session event rest cause hcut =>
      simp only [calls, hcut]
      exact hat
  | case5 session event rest hactive stopped failure hturn =>
      have hstopped := hat.turn event
      rw [hturn] at hstopped
      simp only [calls, hactive, hturn, List.append_nil]
      exact hstopped
  | case6 session event rest hactive next hturn ih =>
      have hnext := hat.turn event
      rw [hturn] at hnext
      simp only [calls, hactive, hturn]
      rw [Terminal.performAll_append]
      exact ih hnext
  | case7 session event rest hidle =>
      simp only [calls, hidle]
      exact hat

end Calls

-- What can be asked of a session: a single call, or to run until it is over, with a sink for that.
inductive Order where
  | call (call : Terminal.Call)
  | run (sink : Sink) (script : List LinkEvent)

section Orders

variable {link : Type} [Link link]

def obey (session : Session link) : Order → Session link
  | .call call =>
      let outcome := (⟨session.socket, session.now, []⟩ : Terminal).perform session.carrier call
      { session with
        socket := outcome.terminal.socket
        carrier := outcome.carrier
        now := outcome.terminal.now }
  | .run sink script => (run { session with sink := sink } script).1

def obeyAll (session : Session link) (orders : List Order) : Session link :=
  orders.foldl obey session

def orderCalls (session : Session link) : Order → List Terminal.Call
  | .call call => [call]
  | .run sink script => calls { session with sink := sink } script

-- All the calls that some orders come to, those that sessions make in the meantime included.
def allCalls (session : Session link) : List Order → List Terminal.Call
  | [] => []
  | order :: rest => session.orderCalls order ++ (session.obey order).allCalls rest

variable {session : Session link} {reached : Terminal × link}

theorem At.obey (hat : session.At reached) (order : Order) :
    (session.obey order).At (reached.1.performAll reached.2 (session.orderCalls order)) := by
  cases order with
  | call call =>
      obtain ⟨⟨socket, now, taken⟩, carrier⟩ := reached
      obtain ⟨socket', carrier', now', sink⟩ := session
      obtain ⟨rfl, rfl, rfl⟩ := hat
      cases call <;> exact ⟨rfl, rfl, rfl⟩
  | run sink script =>
      have hwith : At { session with sink := sink } reached :=
        ⟨hat.socket_eq, hat.carrier_eq, hat.now_eq⟩
      exact hwith.run script

theorem At.obeyAll (hat : session.At reached) (orders : List Order) :
    (session.obeyAll orders).At (reached.1.performAll reached.2 (session.allCalls orders)) := by
  induction orders generalizing session reached with
  | nil => exact hat
  | cons order rest ih =>
      rw [allCalls, Terminal.performAll_append]
      exact ih (hat.obey order)

-- At the end of every report, be it asked for or part of a session, the times that the connection
-- was told of add up to the whole milliseconds since the socket was made, and less than one is
-- left. How the reports lie in time makes no difference to that, nor does what comes of them. All
-- the time together must have 64 bits.
theorem reports_all_time (id : Nat) (flow : Flow) (settings : Settings) (now : Nat) (carrier : link)
    (sink : Sink) (orders : List Order) :
    let start : Session link := ⟨Socket.ofSettings id flow settings now, carrier, now, sink⟩
    let fresh := Terminal.ofSettings id flow settings now
    let calls := start.allCalls orders
    (start.obeyAll orders).At (fresh.performAll carrier calls) ∧
      ∀ earlier later : List Terminal.Call, calls = earlier ++ .catchUp :: later →
        let reached := (fresh.performAll carrier (earlier ++ [.catchUp])).1
        let told := fresh.history (earlier ++ [.catchUp])
        reached.socket.connection = ((Connection.ofSettings id settings).run told).1 ∧
          reached.now = now + Terminal.waited earlier ∧
          reached.socket.reported ≤ reached.now ∧
          (reached.now - now < 1000 * 2 ^ 64 →
            Connection.millis told = (reached.now - now) / 1000 ∧
              reached.now < reached.socket.reported + 1000) := by
  intro start fresh calls
  have hstart : start.At (fresh, carrier) := ⟨rfl, rfl, rfl⟩
  refine ⟨hstart.obeyAll orders, fun earlier later _ => ?_⟩
  intro reached told
  have hreached : reached = (earlier ++ [Terminal.Call.catchUp]).foldl Terminal.after fresh :=
    fresh.performAll_fst carrier _
  have hlast : reached = (earlier.foldl Terminal.after fresh).after .catchUp := by
    rw [hreached, List.foldl_append]
    rfl
  have hnow : reached.now = now + Terminal.waited earlier :=
    (congrArg Terminal.now hlast).trans (fresh.now_foldl_after earlier)
  have hreported : reached.socket.reported = now + Connection.millis told * 1000 := by
    rw [hreached]
    exact fresh.reported_foldl_after _
  have hle : reached.socket.reported ≤ reached.now := by
    rw [hreached]
    exact Terminal.reported_foldl_le (Nat.le_refl now) _
  refine ⟨?_, hnow, hle, fun hspan => ?_⟩
  · rw [hreached]
    exact fresh.connection_foldl_after _
  · have hbefore : (earlier.foldl Terminal.after fresh).socket.reported =
        now + Connection.millis (fresh.history earlier) * 1000 := fresh.reported_foldl_after earlier
    have hstill : (earlier.foldl Terminal.after fresh).now = reached.now := by
      rw [hlast]
      rfl
    have hrest : reached.now < reached.socket.reported + 1000 := by
      rw [hlast]
      exact Terminal.now_lt_of_catchUp _ (by omega)
    exact ⟨by omega, hrest⟩

end Orders

-- What is left of a millisecond counts for the next report.
example :
    let flow : Flow := ⟨⟨⟨10, 0, 0, 2⟩, 40000⟩, ⟨⟨10, 0, 0, 1⟩, 80⟩⟩
    let fresh := Terminal.ofSettings 1 flow Settings.standard 500
    fresh.history [.wait 600, .catchUp, .wait 600, .catchUp, .wait 2900, .catchUp] =
      [.elapse 1, .elapse 3] := by
  cbv

end Session

end UserTcp
