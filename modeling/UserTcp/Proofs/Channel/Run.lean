import UserTcp.Proofs.Channel.Steps
import UserTcp.Proofs.Outbound.Balanced
import UserTcp.Proofs.Outbound.Fits

namespace UserTcp.Channel

-- What is done at the two ends. What was sent once can come at any time, more than once or
-- never, but not when it is half a lap behind.
inductive Move where
  | send
  | elapse (time : Millis)
  | probe
  | report
  | deliver (index : Nat)
  | acknowledge (index : Nat)
  | outgoing (op : Pipe.Op) (hop : op.takes = false)
  | incoming (op : Pipe.Op) (hop : op.feeds = false)

def move? (channel : Channel) : Move → Option Channel
  | .send =>
      let sent := channel.outbound.send
      some { channel with
        outbound := sent.1
        flights := channel.flights ++ Outbound.locate channel.outbound.next sent.2 }
  | .elapse time =>
      let sent := channel.outbound.elapse time
      some { channel with
        outbound := sent.1
        flights := channel.flights ++
          channel.outbound.flights.filter fun flight => sent.2 = some flight.chunk }
  | .probe =>
      some { channel with
        flights := channel.flights ++ [⟨channel.outbound.next, channel.outbound.emptyChunk⟩] }
  | .report =>
      some { channel with
        reports := channel.reports ++
          [⟨channel.inbound.initial.map fun _ => channel.inbound.received,
            channel.inbound.feedback⟩] }
  | .deliver index =>
      match channel.flights[index]? with
      | none => none
      | some flight =>
          if channel.inbound.stream.pushed + 1 < flight.start + SeqNo.lap / 2 then
            some { channel with inbound := channel.inbound.receive flight.chunk }
          else none
  | .acknowledge index =>
      match channel.reports[index]? with
      | none => none
      | some report =>
          if report.acked.all fun ack => channel.outbound.next < ack + SeqNo.lap / 2 then
            some { channel with outbound := channel.outbound.receive report.feedback }
          else none
  | .outgoing op _ =>
      some { channel with
        outbound := { channel.outbound with input := (channel.outbound.input.apply op).2 }
        written := channel.written ++ op.added channel.outbound.input }
  | .incoming op _ =>
      some { channel with
        inbound := channel.inbound.mapStream fun pipe => (pipe.apply op).2
        taken := channel.taken ++ op.removed channel.inbound.stream }

def run? (channel : Channel) : List Move → Option Channel
  | [] => some channel
  | move :: rest =>
      match channel.move? move with
      | none => none
      | some next => next.run? rest

-- A sender and a receiver as they are together at any time. No chunk is too big for the
-- receiver, and none is broken unless the stream is.
structure Fit (channel : Channel) : Prop where
  sound : channel.Sound
  balanced : channel.outbound.Balanced
  unbroken : channel.outbound.Unbroken
  fits : channel.outbound.Fits channel.inbound.stream.capacity
  granted : ∀ report ∈ channel.reports,
    report.feedback.window.toNat ≤ channel.inbound.stream.capacity

theorem fit_start (senderCapacity receiverCapacity : Nat) (initial : SeqNo) (timeout : Millis)
    (payloadLimit : Nat) :
    (start senderCapacity receiverCapacity initial timeout payloadLimit).Fit where
  sound := sound_start senderCapacity receiverCapacity initial timeout payloadLimit
  balanced := Outbound.balanced_ofInput _ initial timeout payloadLimit
  unbroken := fun _ _ hmem => absurd hmem List.not_mem_nil
  fits := Outbound.fits_ofInput _ initial timeout payloadLimit _
  granted := fun _ hmem => absurd hmem List.not_mem_nil

namespace Fit

variable {channel : Channel}

theorem transmit (hfit : channel.Fit) (flights : List Flight) (reports : List Report)
    (hflights : ∀ flight ∈ flights, flight ∈ channel.flights ∨
      flight ∈ channel.outbound.flights ∨ flight.chunk.span = 0)
    (hreports : ∀ report ∈ reports, report ∈ channel.reports ∨
      report = ⟨channel.inbound.initial.map fun _ => channel.inbound.received,
        channel.inbound.feedback⟩) :
    { channel with flights := flights, reports := reports }.Fit where
  sound := by
    refine hfit.sound.transmit flights reports hflights fun report hmem => ?_
    rcases hreports report hmem with hold | rfl
    · exact .inl hold
    · exact .inr ⟨rfl, rfl⟩
  balanced := hfit.balanced
  unbroken := hfit.unbroken
  fits := hfit.fits
  granted := by
    intro report hmem
    rcases hreports report hmem with hold | rfl
    · exact hfit.granted report hold
    · exact channel.inbound.window_feedback_le

theorem send (hfit : channel.Fit) : { channel with outbound := channel.outbound.send.1 }.Fit where
  sound := hfit.sound.send
  balanced := hfit.balanced.send
  unbroken := hfit.unbroken.send
  fits := hfit.fits.send
  granted := hfit.granted

theorem elapse (hfit : channel.Fit) (time : Millis) :
    { channel with outbound := (channel.outbound.elapse time).1 }.Fit where
  sound := hfit.sound.settle (hfit.sound.sends.settles_elapse time) (Nat.zero_le _)
  balanced := hfit.balanced.elapse time
  unbroken := hfit.unbroken.settle (hfit.sound.sends.settles_elapse time)
  fits := hfit.fits.settle (hfit.sound.sends.settles_elapse time) (by
    rw [Outbound.window_elapse]
    exact hfit.fits.window_le)
  granted := hfit.granted

theorem acknowledge (hfit : channel.Fit) (report : Report) (hmem : report ∈ channel.reports)
    (htimely : ∀ ack, report.acked = some ack → channel.outbound.next < ack + SeqNo.lap / 2) :
    { channel with outbound := channel.outbound.receive report.feedback }.Fit where
  sound := hfit.sound.acknowledge report hmem htimely
  balanced := hfit.balanced.receive report.feedback
  unbroken := hfit.unbroken.settle (hfit.sound.sends.settles_receive report.feedback)
  fits := hfit.fits.settle (hfit.sound.sends.settles_receive report.feedback) (by
    rw [Outbound.window_receive]
    exact Nat.le_trans (hfit.granted report hmem) (Nat.le_max_left _ 1))
  granted := hfit.granted

theorem deliver (hfit : channel.Fit) (flight : Flight) (hmem : flight ∈ channel.flights)
    (htimely : channel.inbound.stream.pushed + 1 < flight.start + SeqNo.lap / 2) :
    { channel with inbound := channel.inbound.receive flight.chunk }.Fit where
  sound := hfit.sound.deliver flight hmem htimely
  balanced := hfit.balanced
  unbroken := hfit.unbroken
  fits := by
    rw [Inbound.capacity_receive]
    exact hfit.fits
  granted := by
    rw [Inbound.capacity_receive]
    exact hfit.granted

theorem outgoing (hfit : channel.Fit) (op : Pipe.Op) (hop : op.takes = false) :
    { channel with
      outbound := { channel.outbound with input := (channel.outbound.input.apply op).2 }
      written := channel.written ++ op.added channel.outbound.input }.Fit where
  sound := hfit.sound.outgoing op hop
  balanced := hfit.balanced.mapInput _
  unbroken := hfit.unbroken.apply op
  fits := hfit.fits.mapInput _
  granted := hfit.granted

theorem incoming (hfit : channel.Fit) (op : Pipe.Op) (hop : op.feeds = false) :
    { channel with
      inbound := channel.inbound.mapStream fun pipe => (pipe.apply op).2
      taken := channel.taken ++ op.removed channel.inbound.stream }.Fit where
  sound := hfit.sound.incoming op hop
  balanced := hfit.balanced
  unbroken := hfit.unbroken
  fits := by
    rw [Inbound.stream_mapStream, Pipe.capacity_apply]
    exact hfit.fits
  granted := by
    rw [Inbound.stream_mapStream, Pipe.capacity_apply]
    exact hfit.granted

theorem move (hfit : channel.Fit) {next : Channel} (move : Move)
    (hmove : channel.move? move = some next) : next.Fit := by
  cases move with
  | send =>
      obtain rfl := Option.some.inj hmove
      refine hfit.send.transmit _ _ ?_ fun _ hmem => .inl hmem
      intro flight hmem
      rw [Outbound.send, Outbound.flights_fill]
      rcases List.mem_append.mp hmem with hold | hnew
      · exact .inl hold
      · exact .inr (.inl (List.mem_append_right _ hnew))
  | elapse time =>
      obtain rfl := Option.some.inj hmove
      refine (hfit.elapse time).transmit _ _ ?_ fun _ hmem => .inl hmem
      intro flight hmem
      rw [Outbound.flights_elapse]
      rcases List.mem_append.mp hmem with hold | hagain
      · exact .inl hold
      · exact .inr (.inl (List.mem_of_mem_filter hagain))
  | probe =>
      obtain rfl := Option.some.inj hmove
      refine hfit.transmit _ _ ?_ fun _ hmem => .inl hmem
      intro flight hmem
      rcases List.mem_append.mp hmem with hold | hempty
      · exact .inl hold
      · rw [List.mem_singleton.mp hempty]
        exact .inr (.inr rfl)
  | report =>
      obtain rfl := Option.some.inj hmove
      refine hfit.transmit _ _ (fun _ hmem => .inl hmem) ?_
      intro report hmem
      exact (List.mem_append.mp hmem).imp_right List.mem_singleton.mp
  | deliver index =>
      simp only [move?] at hmove
      split at hmove
      · cases hmove
      · rename_i flight hflight
        split at hmove
        · rename_i htimely
          obtain rfl := Option.some.inj hmove
          exact hfit.deliver flight (List.mem_of_getElem? hflight) htimely
        · cases hmove
  | acknowledge index =>
      simp only [move?] at hmove
      split at hmove
      · cases hmove
      · rename_i report hreport
        split at hmove
        · rename_i htimely
          obtain rfl := Option.some.inj hmove
          refine hfit.acknowledge report (List.mem_of_getElem? hreport) ?_
          simpa only [Option.all_eq_true, decide_eq_true_eq] using htimely
        · cases hmove
  | outgoing op hop =>
      obtain rfl := Option.some.inj hmove
      exact hfit.outgoing op hop
  | incoming op hop =>
      obtain rfl := Option.some.inj hmove
      exact hfit.incoming op hop

theorem run (hfit : channel.Fit) {last : Channel} (moves : List Move)
    (hrun : channel.run? moves = some last) : last.Fit := by
  induction moves generalizing channel with
  | nil =>
      obtain rfl := Option.some.inj hrun
      exact hfit
  | cons move rest ih =>
      simp only [run?] at hrun
      split at hrun
      · cases hrun
      · rename_i next hmove
        exact ih (hfit.move move hmove) hrun

end Fit

end UserTcp.Channel
