import UserTcp.Link.Tap
import UserTcp.Proofs.Connection.Calls
import UserTcp.Proofs.Inbound.Entering
import UserTcp.Socket.Session

namespace UserTcp

namespace Connection

-- The bytes that a segment brings into the stream from the peer.
def entering (connection : Connection) (segment : Segment) : List UInt8 :=
  match connection.active with
  | .ok true => connection.inbound.entering segment.chunk
  | _ => []

theorem passes_heed (connection : Connection) (segment : Segment) :
    connection.inbound.stream.Passes (connection.heed segment).1.inbound.stream
      (connection.inbound.entering segment.chunk) [] := by
  have hfeed := connection.inbound.passes_receive segment.chunk
  rw [heed]
  by_cases hfailed : (connection.feed segment).failed = true
  · rw [if_pos hfailed]
    exact hfeed
  · rw [if_neg hfailed, inbound_send, inbound_noteClose]
    exact hfeed

theorem passes_receive (connection : Connection) (segment : Segment) :
    connection.inbound.stream.Passes (connection.receive segment).1.inbound.stream
      (connection.entering segment) [] := by
  unfold entering
  split
  · rename_i hactive
    rw [receive_of_active segment hactive]
    exact connection.passes_heed segment
  · rename_i hinactive
    rw [receive_of_inactive segment hinactive]
    exact .refl _

-- That time passes breaks the stream at most.
theorem passes_elapse (connection : Connection) (time : Millis) :
    connection.inbound.stream.Passes (connection.elapse time).1.inbound.stream [] [] := by
  rcases connection.inbound_elapse time with hsame | hbroken
  · rw [hsame]
    exact .refl _
  · rw [hbroken]
    exact connection.inbound.stream.passes_fail

end Connection

namespace Socket

def incoming (socket : Socket) : Pipe :=
  socket.connection.inbound.stream

-- The bytes that a datagram brings into the stream from the peer.
def entering (socket : Socket) (datagram : List UInt8) : List UInt8 :=
  match Datagram.decode datagram with
  | .error _ => []
  | .ok (flow, segment) =>
      if flow = socket.flow.reverse then socket.connection.entering segment else []

variable {link : Type} [Link link]

theorem passes_handle (socket : Socket) (carrier : link) (datagram : List UInt8) :
    socket.incoming.Passes (socket.handle carrier datagram).socket.incoming
      (socket.entering datagram) [] := by
  rw [handle, entering]
  cases Datagram.decode datagram with
  | error error => exact .refl socket.incoming
  | ok decoded =>
      simp only
      split
      · rw [incoming, incoming, connection_emit]
        exact socket.connection.passes_receive decoded.2
      · exact .refl socket.incoming

theorem passes_catchUp (socket : Socket) (carrier : link) (now : Nat) :
    socket.incoming.Passes (socket.catchUp carrier now).socket.incoming [] [] := by
  simp only [catchUp]
  split
  · exact .refl socket.incoming
  · rw [incoming, incoming, connection_emit]
    exact socket.connection.passes_elapse _

theorem passes_read (socket : Socket) :
    socket.incoming.Passes socket.read.2.incoming [] socket.read.1 :=
  socket.incoming.passes_read

theorem buffer_read (socket : Socket) : socket.read.2.incoming.buffer = [] :=
  socket.incoming.buffer_read

end Socket

namespace Session

section Copies

variable {link : Type} {first second third : Session link}

-- The bytes that an answer of the link brings into the stream from the peer.
def entering (session : Session link) : Arrival → List UInt8
  | .datagram bytes => session.socket.entering (bytes.take Socket.datagramLimit)
  | .nothing => []
  | .failed _ => []

-- From one state of a session to another these bytes have come into the stream from the peer, and
-- what has left it was written to the sink.
def Copies (before after : Session link) (entered : List UInt8) : Prop :=
  ∃ copied, after.sink.written = before.sink.written ++ copied ∧
    before.socket.incoming.Passes after.socket.incoming entered copied

theorem Copies.refl (session : Session link) : session.Copies session [] :=
  ⟨[], (List.append_nil _).symm, .refl _⟩

theorem Copies.trans {entered moreEntered : List UInt8} (hfirst : first.Copies second entered)
    (hsecond : second.Copies third moreEntered) : first.Copies third (entered ++ moreEntered) := by
  obtain ⟨copied, hwritten, hpasses⟩ := hfirst
  obtain ⟨moreCopied, hmoreWritten, hmorePasses⟩ := hsecond
  refine ⟨copied ++ moreCopied, ?_, hpasses.trans hmorePasses⟩
  rw [hmoreWritten, hwritten, List.append_assoc]

-- What does not write to the sink must take nothing out of the stream.
theorem copies_of_sink {before after : Session link} {entered : List UInt8}
    (hsink : after.sink = before.sink)
    (hpasses : before.socket.incoming.Passes after.socket.incoming entered []) :
    before.Copies after entered :=
  ⟨[], by rw [hsink, List.append_nil], hpasses⟩

-- A sink that takes the bytes has them behind all others. One that does not loses them.
theorem copies_copy (session : Session link) (hsink : session.copy.2 ≠ .error .sinkFull) :
    session.Copies session.copy.1 [] := by
  refine ⟨session.socket.read.1, ?_, session.socket.passes_read⟩
  simp only [copy, Sink.write] at hsink ⊢
  split
  · rename_i hempty
    rw [hempty, List.append_nil]
  · split
    · rfl
    · rename_i hne hfull
      rw [if_neg hne, if_neg hfull] at hsink
      exact absurd rfl hsink

theorem andThen_cases (part : Session link × Except Failure Unit)
    (next : Session link → Session link × Except Failure Unit) :
    (∃ failure, andThen part next = (part.1, .error failure)) ∨
      andThen part next = next part.1 := by
  obtain ⟨session, result⟩ := part
  cases result with
  | error failure => exact .inl ⟨failure, rfl⟩
  | ok done => exact .inr rfl

-- When the next part of a turn is not reached, all is as the part before has left it.
theorem Copies.andThen {before : Session link} {part : Session link × Except Failure Unit}
    {entered : List UInt8} (hpart : before.Copies part.1 entered)
    (next : Session link → Session link × Except Failure Unit)
    (hnext : Session.andThen part next = next part.1 → part.1.Copies (next part.1).1 []) :
    before.Copies (Session.andThen part next).1 entered := by
  rcases andThen_cases part next with ⟨failure, hstop⟩ | hgoes
  · rw [hstop]
    exact hpart
  · have hboth := hpart.trans (hnext hgoes)
    rw [List.append_nil] at hboth
    rw [hgoes]
    exact hboth

end Copies

variable {link : Type} [Link link]

-- All the bytes that come into the stream from the peer while a session runs.
def entered (session : Session link) : List LinkEvent → List UInt8
  | [] => []
  | event :: rest =>
      match session.socket.active with
      | .ok true =>
          match session.turn event with
          | (_, .error _) => session.entering event.arrival
          | (next, .ok ()) => session.entering event.arrival ++ next.entered rest
      | _ => []

theorem copies_take (session : Session link) (arrival : Arrival) :
    session.Copies (session.take arrival).1 (session.entering arrival) := by
  cases arrival with
  | datagram bytes => exact copies_of_sink rfl (session.socket.passes_handle session.carrier _)
  | nothing => exact .refl session
  | failed reason => exact .refl session

theorem copies_catchUp (session : Session link) : session.Copies session.catchUp.1 [] :=
  copies_of_sink rfl (session.socket.passes_catchUp session.carrier session.now)

-- A turn may stop when bytes have come in and are not copied yet. They stay in the stream then.
theorem copies_turn (session : Session link) (event : LinkEvent)
    (hsink : (session.turn event).2 ≠ .error .sinkFull) :
    session.Copies (session.turn event).1 (session.entering event.arrival) := by
  let moved : Session link := { session with now := session.now + event.microseconds }
  have htaken : session.Copies (moved.take event.arrival).1 (session.entering event.arrival) :=
    moved.copies_take event.arrival
  refine (htaken.andThen catchUp fun _ => copies_catchUp _).andThen copy fun hgoes =>
    copies_copy _ ?_
  rw [turn, hgoes] at hsink
  exact hsink

-- A turn that gets to its end leaves nothing in the stream.
theorem buffer_turn (session : Session link) (event : LinkEvent)
    (hok : (session.turn event).2 = .ok ()) :
    (session.turn event).1.socket.incoming.buffer = [] := by
  rw [turn] at hok ⊢
  rcases andThen_cases (andThen (take { session with now := session.now + event.microseconds }
    event.arrival) catchUp) copy with ⟨failure, hstop⟩ | hgoes
  · rw [hstop] at hok
    cases hok
  · rw [hgoes]
    exact Socket.buffer_read _

theorem copies_run (session : Session link) (events : List LinkEvent)
    (hsink : (session.run events).2.1 ≠ .error .sinkFull) :
    session.Copies (session.run events).1 (session.entered events) := by
  fun_induction run session events with
  | case1 session cause hcut => exact .refl session
  | case2 session hactive => exact .refl session
  | case3 session hidle => exact .refl session
  | case4 session event rest cause hcut =>
      simp only [entered, hcut]
      exact .refl session
  | case5 session event rest hactive stopped failure hturn =>
      have hcopies := session.copies_turn event
      rw [hturn] at hcopies
      simp only [entered, hactive, hturn]
      exact hcopies hsink
  | case6 session event rest hactive next hturn ih =>
      have hcopies := session.copies_turn event
      rw [hturn] at hcopies
      simp only [entered, hactive, hturn]
      exact (hcopies nofun).trans (ih hsink)
  | case7 session event rest hidle =>
      simp only [entered, hidle]
      exact .refl session

-- A session that ends without a failure has copied everything, if it does anything at all.
theorem buffer_run (session : Session link) (events : List LinkEvent)
    (hstart : session.socket.active = .ok true ∨ session.socket.incoming.buffer = [])
    (hok : (session.run events).2.1 = .ok ()) :
    (session.run events).1.socket.incoming.buffer = [] := by
  have hresolve {session : Session link} (hidle : session.socket.active = .ok false)
      (hstart : session.socket.active = .ok true ∨ session.socket.incoming.buffer = []) :
      session.socket.incoming.buffer = [] :=
    hstart.resolve_left (Connection.not_active hidle)
  fun_induction run session events with
  | case1 session cause hcut => cases hok
  | case2 session hactive => cases hok
  | case3 session hidle => exact hresolve hidle hstart
  | case4 session event rest cause hcut => cases hok
  | case5 session event rest hactive stopped failure hturn => cases hok
  | case6 session event rest hactive next hturn ih =>
      have hdrained := session.buffer_turn event
      rw [hturn] at hdrained
      exact ih (.inr (hdrained rfl)) hok
  | case7 session event rest hidle => exact hresolve hidle hstart

-- A session comes to its end on a script that has none.
inductive Returns : Session link → (Nat → LinkEvent) → Session link → Except Failure Unit → Prop
  | idle (session : Session link) (script : Nat → LinkEvent)
      (hidle : session.socket.active = .ok false) : Returns session script session (.ok ())
  | overflows {session : Session link} {cause : Overflow} (script : Nat → LinkEvent)
      (hcut : session.socket.active = .error cause) :
      Returns session script session (.error (.overflow cause))
  | stops {session stopped : Session link} {script : Nat → LinkEvent} {failure : Failure}
      (hactive : session.socket.active = .ok true)
      (hturn : session.turn (script 0) = (stopped, .error failure)) :
      Returns session script stopped (.error failure)
  | goes {session next ended : Session link} {script : Nat → LinkEvent}
      {result : Except Failure Unit} (hactive : session.socket.active = .ok true)
      (hturn : session.turn (script 0) = (next, .ok ()))
      (hrest : Returns next (fun index => script (index + 1)) ended result) :
      Returns session script ended result

-- By then it has used a front part of the script.
theorem Returns.run {session ended : Session link} {script : Nat → LinkEvent}
    {result : Except Failure Unit} (hreturns : session.Returns script ended result) :
    ∃ count, session.run ((List.range count).map script) = (ended, result, []) := by
  induction hreturns with
  | idle session script hidle =>
      refine ⟨0, ?_⟩
      simp only [List.range_zero, List.map_nil, Session.run, hidle]
  | overflows script hcut =>
      refine ⟨0, ?_⟩
      simp only [List.range_zero, List.map_nil, Session.run, hcut]
  | stops hactive hturn =>
      refine ⟨1, ?_⟩
      simp only [List.range_one, List.map_cons, List.map_nil, Session.run, hactive, hturn]
  | goes hactive hturn hrest ih =>
      obtain ⟨count, hrun⟩ := ih
      refine ⟨count + 1, ?_⟩
      rw [List.range_succ_eq_map, List.map_cons, List.map_map]
      simp only [Session.run, hactive, hturn]
      exact hrun

-- A session copies the stream from the peer: whatever the link answers, and however the session
-- ends, the bytes written to the sink and those left in the stream are the bytes that were in the
-- stream and those that have come into it, in order, unless it is the sink that fails. Nothing is
-- left in the stream when a session that was not over before it began ends without a failure.
theorem copies_stream (session : Session link) :
    (∀ events, let outcome := session.run events
      (outcome.2.1 ≠ .error .sinkFull → session.Copies outcome.1 (session.entered events)) ∧
      (session.socket.active = .ok true → outcome.2.1 = .ok () →
        outcome.1.socket.incoming.buffer = [])) ∧
    ∀ script ended result, session.Returns script ended result →
      ∃ count, let events := (List.range count).map script
        session.run events = (ended, result, []) ∧
          (result ≠ .error .sinkFull → session.Copies ended (session.entered events)) ∧
          (session.socket.active = .ok true → result = .ok () →
            ended.socket.incoming.buffer = []) := by
  refine ⟨fun events => ⟨session.copies_run events, fun hactive =>
    session.buffer_run events (.inl hactive)⟩, fun script ended result hreturns => ?_⟩
  obtain ⟨count, hrun⟩ := hreturns.run
  have hcopies := session.copies_run ((List.range count).map script)
  have hbuffer := session.buffer_run ((List.range count).map script)
  rw [hrun] at hcopies hbuffer
  exact ⟨count, hrun, hcopies, fun hactive => hbuffer (.inl hactive)⟩

-- Two bytes have come in when their acknowledgment fails to go out.
example :
    let flow : Flow := ⟨⟨⟨10, 0, 0, 2⟩, 40000⟩, ⟨⟨10, 0, 0, 1⟩, 80⟩⟩
    let opening : Segment := ⟨⟨⟨5⟩, true, [1, 2], false, false⟩, ⟨none, 1000, false⟩⟩
    let datagram := (Datagram.encode flow.reverse opening).toOption.getD []
    let broken := Tap.quiet.withFault (some (.broken "gone")) none
    let session : Session Tap :=
      ⟨Socket.ofSettings 1 flow Settings.standard 0, broken, 0, Sink.ofLimit none⟩
    let outcome := session.run [⟨500, .nothing⟩, ⟨2000, .datagram datagram⟩]
    outcome.2 = (.error (.link "gone"), []) ∧ outcome.1.sink.written = [] ∧
      outcome.1.socket.incoming.buffer = [1, 2] := by
  cbv

end Session

end UserTcp
