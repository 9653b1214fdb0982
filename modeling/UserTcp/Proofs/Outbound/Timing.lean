import UserTcp.Proofs.Outbound.Cumulative
import UserTcp.Proofs.Outbound.Progress

namespace UserTcp.Outbound

variable {outbound : Outbound}

-- Feedback covers a chunk when it acknowledges an index that was sent, and a flight ends there or
-- before.
def covers (outbound : Outbound) (feedback : Feedback) : Bool :=
  !feedback.rst && feedback.ackno.any fun ackno =>
    let ack := ackno.nearestIndex outbound.initial outbound.next
    decide (ack ≤ outbound.next) && outbound.flights.any fun flight => decide (flight.stop ≤ ack)

-- What can be seen of a sender from outside: chunks that go out for the first time, and whether
-- nothing else was in flight; the window of feedback, and whether it covers a chunk; time that
-- passes, and whether a chunk goes out again at its end.
inductive Sight where
  | launched (chunks : List Chunk) (opening : Bool)
  | heard (window : UInt16) (covering : Bool)
  | passed (time : Millis) (again : Bool)
  | written

namespace Sight

-- Here the wait for an acknowledgment begins anew.
def restarts : Sight → Bool
  | launched _ opening => opening
  | heard _ covering => covering
  | passed _ again => again
  | written => false

def covers : Sight → Bool
  | heard _ covering => covering
  | _ => false

def repeats : Sight → Bool
  | passed _ again => again
  | _ => false

def time : Sight → Nat
  | passed time _ => time.toNat
  | _ => 0

-- What was seen stands with the latest first. The window is open until feedback says otherwise.
def opened : List Sight → Bool
  | [] => true
  | heard window _ :: _ => decide (0 < window)
  | _ :: earlier => opened earlier

-- Sums up what was seen since the latest of certain events.
def since (stops : Sight → Bool) (amount : Sight → List Sight → Nat) : List Sight → Nat
  | [] => 0
  | sight :: earlier => if stops sight then 0 else since stops amount earlier + amount sight earlier

def waited : List Sight → Nat :=
  since restarts fun sight _ => sight.time

def repetitions : List Sight → Nat :=
  since covers fun sight _ => sight.repeats.toNat

-- The repetitions that found the window open.
def doublings : List Sight → Nat :=
  since covers fun sight earlier => (sight.repeats && opened earlier).toNat

-- The chunks that have gone out for the first time, in order.
def launches : List Sight → List Chunk
  | [] => []
  | launched chunks _ :: earlier => launches earlier ++ chunks
  | _ :: earlier => launches earlier

end Sight

-- A sender with all that was seen of it.
structure Timeline where
  outbound : Outbound
  sights : List Sight

namespace Timeline

def ofInput (input : Pipe) (initial : SeqNo) (timeout : Millis) (payloadLimit : Nat) :
    Timeline where
  outbound := Outbound.ofInput input initial timeout payloadLimit
  sights := []

def sight (outbound : Outbound) : Event → Sight
  | .send =>
      .launched outbound.send.2 (outbound.flights.isEmpty && !outbound.send.2.isEmpty)
  | .receive feedback => .heard feedback.window (outbound.covers feedback)
  | .elapse time => .passed time (outbound.elapse time).2.isSome
  | .input _ => .written

def step (timeline : Timeline) (event : Event) : Timeline where
  outbound := timeline.outbound.after event
  sights := sight timeline.outbound event :: timeline.sights

def run (timeline : Timeline) (events : List Event) : Timeline :=
  events.foldl step timeline

end Timeline

-- A sender that sends something starts its alarm unless it runs.
theorem alarm_send (outbound : Outbound) :
    outbound.send.1.alarm =
      if outbound.alarm.running = true ∨ outbound.send.2 = [] then outbound.alarm
      else outbound.alarm.start := by
  have hfill := fill_keeps_sent
    (fun after sent => after.alarm =
      if outbound.alarm.running = true ∨ sent = [] then outbound.alarm
      else outbound.alarm.start) outbound.usableWindow ?_ outbound [] (by simp)
  · rw [List.nil_append] at hfill
    exact hfill
  · intro before sent hbefore _ _ _
    cases hrunning : outbound.alarm.running with
    | true => simp [hbefore, launch, hrunning]
    | false =>
        cases sent with
        | nil => simp [hbefore, launch, hrunning]
        | cons first rest => simp [hbefore, launch, hrunning]

theorem covers_of_ackno (outbound : Outbound) {feedback : Feedback} {ackno : SeqNo}
    (hrst : feedback.rst = false) (hackno : feedback.ackno = some ackno) :
    outbound.covers feedback =
      (decide (ackno.nearestIndex outbound.initial outbound.next ≤ outbound.next) &&
        outbound.flights.any fun flight =>
          decide (flight.stop ≤ ackno.nearestIndex outbound.initial outbound.next)) := by
  simp only [covers, hrst, hackno, Option.any_some, Bool.not_false, Bool.true_and]

-- An acknowledgment leaves all flights in flight when it comes to the end of none.
theorem leaves_all_iff (outbound : Outbound) (ack : Nat) :
    (outbound.flights.filter fun flight => decide (ack < flight.stop)) = outbound.flights ↔
      (outbound.flights.any fun flight => decide (flight.stop ≤ ack)) = false := by
  rw [List.filter_eq_self, List.any_eq_false]
  simp only [decide_eq_true_eq, Nat.not_le]

-- Feedback that covers no chunk leaves the alarm and the flights alone. What covers one has the
-- alarm start over, with its first timeout.
theorem Balanced.receive_cases (hbalanced : outbound.Balanced) (feedback : Feedback) :
    (outbound.covers feedback = false ∧
      ∃ input, outbound.receive feedback =
        { outbound with window := feedback.window, input := input }) ∨
    (outbound.covers feedback = true ∧
      ∃ left, left <:+ outbound.flights ∧ outbound.receive feedback =
        { outbound with
          window := feedback.window
          flights := left
          inFlight := spans (left.map Flight.chunk)
          retransmissions := 0
          alarm := {
            initialTimeout := outbound.alarm.initialTimeout
            timeout := outbound.alarm.initialTimeout
            elapsed := 0
            running := !left.isEmpty } }) := by
  cases hrst : feedback.rst with
  | true =>
      refine .inl ⟨by simp only [covers, hrst, Bool.not_true, Bool.false_and], ?_⟩
      exact ⟨outbound.input.fail, by simp only [receive, hrst, ↓reduceIte, failInput]⟩
  | false =>
      cases hackno : feedback.ackno with
      | none =>
          refine .inl ⟨by simp only [covers, hackno, Option.any_none, Bool.and_false], ?_⟩
          simp only [receive, hrst, Bool.false_eq_true, ↓reduceIte, hackno]
          split
          · exact ⟨outbound.input.fail, rfl⟩
          · exact ⟨outbound.input, rfl⟩
      | some ackno =>
          have hcovers := outbound.covers_of_ackno hrst hackno
          have hwindow : { outbound with window := feedback.window }.Balanced :=
            ⟨⟨hbalanced.running_iff, hbalanced.settled⟩, hbalanced.inFlight_le, hbalanced.tiles,
              hbalanced.unsent⟩
          simp only [receive, hrst, Bool.false_eq_true, ↓reduceIte, hackno]
          generalize ackno.nearestIndex outbound.initial outbound.next = ack at *
          by_cases hsent : ack ≤ outbound.next
          · have hall := outbound.leaves_all_iff ack
            have hsuffix := forget_suffix ack outbound.flights outbound.inFlight
            rw [flights_forget hbalanced.tiles] at hsuffix
            rw [if_neg (Nat.not_lt.mpr hsent), hwindow.acknowledge_eq ack, hcovers,
              decide_eq_true hsent, Bool.true_and, leaving]
            cases hany : outbound.flights.any fun flight => decide (flight.stop ≤ ack) with
            | false =>
                rw [if_pos (hall.mpr hany)]
                exact .inl ⟨rfl, outbound.input, rfl⟩
            | true =>
                rw [hany] at hall
                rw [if_neg fun heq => Bool.false_ne_true (hall.mp heq).symm]
                exact .inr ⟨rfl, _, hsuffix, rfl⟩
          · refine .inl ⟨by rw [hcovers, decide_eq_false hsent, Bool.false_and], ?_⟩
            rw [if_pos (Nat.lt_of_not_le hsent)]
            exact ⟨outbound.input, rfl⟩

-- An alarm is due when the sum comes to the timeout. That the sum stays at the ceiling makes no
-- difference to this: no timeout is beyond the ceiling.
theorem due_advance_iff (alarm : Alarm) (time : Millis) :
    (alarm.advance time).due = true ↔
      alarm.running = true ∧ alarm.timeout.toNat ≤ alarm.elapsed.toNat + time.toNat := by
  have hsum := Millis.toNat_addCapped alarm.elapsed time
  have hceiling := Millis.le_ceiling alarm.timeout
  cases hrunning : alarm.running with
  | false => simp [Alarm.advance, Alarm.due, hrunning]
  | true =>
      simp only [Alarm.advance, hrunning, ↓reduceIte, Alarm.due, Bool.true_and, decide_eq_true_eq,
        true_and, UInt64.le_iff_toNat_le, hsum]
      omega

@[simp] theorem timeout_advance (alarm : Alarm) (time : Millis) :
    (alarm.advance time).timeout = alarm.timeout := by
  unfold Alarm.advance
  split <;> rfl

@[simp] theorem initialTimeout_advance (alarm : Alarm) (time : Millis) :
    (alarm.advance time).initialTimeout = alarm.initialTimeout := by
  unfold Alarm.advance
  split <;> rfl

theorem toNat_elapsed_advance {alarm : Alarm} (hrunning : alarm.running = true) (time : Millis) :
    (alarm.advance time).elapsed.toNat =
      min (alarm.elapsed.toNat + time.toNat) Millis.ceiling.toNat := by
  simp only [Alarm.advance, hrunning, ↓reduceIte, Millis.toNat_addCapped]

-- What the alarm of a sender and its count of retransmissions have to do with what was seen of it.
structure Timeline.Punctual (timeline : Timeline) (initialTimeout : Millis) : Prop where
  balanced : timeline.outbound.Balanced
  initialTimeout_eq : timeline.outbound.alarm.initialTimeout = initialTimeout
  timeout_eq : timeline.outbound.alarm.timeout.toNat =
    min (initialTimeout.toNat * 2 ^ Sight.doublings timeline.sights) Millis.ceiling.toNat
  elapsed_eq : timeline.outbound.flights ≠ [] → timeline.outbound.alarm.elapsed.toNat =
    min (Sight.waited timeline.sights) Millis.ceiling.toNat
  retransmissions_eq : timeline.outbound.retransmissions = Sight.repetitions timeline.sights
  opened_eq : Sight.opened timeline.sights = decide (0 < timeline.outbound.window)
  launched : timeline.outbound.flights.map Flight.chunk <:+ Sight.launches timeline.sights

namespace Timeline

variable {timeline : Timeline} {initialTimeout : Millis}

theorem punctual_ofInput (input : Pipe) (initial : SeqNo) (timeout : Millis)
    (payloadLimit : Nat) : (ofInput input initial timeout payloadLimit).Punctual timeout where
  balanced := balanced_ofInput input initial timeout payloadLimit
  initialTimeout_eq := rfl
  timeout_eq := by
    have hceiling := Millis.le_ceiling timeout
    simp only [ofInput, Outbound.ofInput, Alarm.ofTimeout, Sight.doublings, Sight.since]
    omega
  elapsed_eq := fun hflights => absurd rfl hflights
  retransmissions_eq := rfl
  opened_eq := rfl
  launched := List.suffix_rfl

namespace Punctual

theorem receive (hpunctual : timeline.Punctual initialTimeout) (feedback : Feedback) :
    (timeline.step (.receive feedback)).Punctual initialTimeout := by
  have hbalanced := balanced_after hpunctual.balanced (.receive feedback)
  rcases hpunctual.balanced.receive_cases feedback with
    ⟨hcovers, input, hreceive⟩ | ⟨hcovers, left, hsuffix, hreceive⟩
  · simp only [Outbound.after, hreceive] at hbalanced
    simp only [step, sight, Outbound.after, hreceive, hcovers]
    exact ⟨hbalanced, hpunctual.initialTimeout_eq, hpunctual.timeout_eq, hpunctual.elapsed_eq,
      hpunctual.retransmissions_eq, rfl, hpunctual.launched⟩
  · have hlaunched := hsuffix.map Flight.chunk
    have hceiling := Millis.le_ceiling initialTimeout
    simp only [Outbound.after, hreceive] at hbalanced
    simp only [step, sight, Outbound.after, hreceive, hcovers]
    refine ⟨hbalanced, hpunctual.initialTimeout_eq, ?_, fun _ => rfl, rfl, rfl,
      hlaunched.trans hpunctual.launched⟩
    simp only [hpunctual.initialTimeout_eq, Sight.doublings, Sight.since, Sight.covers, ↓reduceIte]
    omega

theorem input (hpunctual : timeline.Punctual initialTimeout) (op : Pipe.Op) :
    (timeline.step (.input op)).Punctual initialTimeout where
  balanced := balanced_after hpunctual.balanced (.input op)
  initialTimeout_eq := hpunctual.initialTimeout_eq
  timeout_eq := hpunctual.timeout_eq
  elapsed_eq := hpunctual.elapsed_eq
  retransmissions_eq := hpunctual.retransmissions_eq
  opened_eq := hpunctual.opened_eq
  launched := hpunctual.launched

theorem send (hpunctual : timeline.Punctual initialTimeout) :
    (timeline.step .send).Punctual initialTimeout := by
  have halarm := timeline.outbound.alarm_send
  have hrunning := hpunctual.balanced.running_iff
  have hflights := timeline.outbound.flights_send
  refine ⟨balanced_after hpunctual.balanced .send, ?_, ?_, fun hwaits => ?_,
    timeline.outbound.retransmissions_send.trans hpunctual.retransmissions_eq, ?_, ?_⟩
  · simp only [step, Outbound.after, halarm]
    split <;> exact hpunctual.initialTimeout_eq
  · simp only [step, Outbound.after, halarm]
    split <;> exact hpunctual.timeout_eq
  · simp only [step, Outbound.after] at hwaits ⊢
    rw [halarm]
    cases hbefore : timeline.outbound.flights with
    | cons oldest rest =>
        have hne : timeline.outbound.flights ≠ [] := hbefore ▸ List.cons_ne_nil oldest rest
        rw [if_pos (.inl (hrunning.mpr hne))]
        simp only [sight, hbefore]
        exact hpunctual.elapsed_eq hne
    | nil =>
        -- what waits now are the chunks that have just gone out
        have hsent : timeline.outbound.send.2 ≠ [] := by
          intro hnone
          rw [hflights, hbefore, hnone] at hwaits
          exact hwaits rfl
        have hidle : ¬ timeline.outbound.alarm.running = true := fun hrun =>
          hrunning.mp hrun hbefore
        rw [if_neg (not_or.mpr ⟨hidle, hsent⟩)]
        simp only [sight, hbefore, List.isEmpty_nil, Bool.true_and, Sight.waited, Sight.since,
          Sight.restarts, Bool.not_eq_true', List.isEmpty_eq_false_iff.mpr hsent, ↓reduceIte]
        rfl
  · simp only [step, Outbound.after, window_send]
    exact hpunctual.opened_eq
  · obtain ⟨before, hbefore⟩ := hpunctual.launched
    refine ⟨before, ?_⟩
    simp only [step, Outbound.after, hflights, List.map_append, map_chunk_locate, sight,
      Sight.launches, ← hbefore, List.append_assoc]

theorem elapse (hpunctual : timeline.Punctual initialTimeout) (time : Millis) :
    (timeline.step (.elapse time)).Punctual initialTimeout := by
  have hbalanced := balanced_after hpunctual.balanced (.elapse time)
  have htimeout := hpunctual.timeout_eq
  cases hdue : (timeline.outbound.alarm.advance time).due with
  | false =>
      simp only [Outbound.after, elapse_of_idle hdue] at hbalanced
      simp only [step, sight, Outbound.after, elapse_of_idle hdue, Option.isSome_none]
      refine ⟨hbalanced, ?_, ?_, fun hwaits => ?_, hpunctual.retransmissions_eq,
        hpunctual.opened_eq, hpunctual.launched⟩
      · rw [initialTimeout_advance]
        exact hpunctual.initialTimeout_eq
      · rw [timeout_advance]
        exact htimeout
      · have hrunning := hpunctual.balanced.running_iff.mpr hwaits
        have helapsed := hpunctual.elapsed_eq hwaits
        rw [toNat_elapsed_advance hrunning]
        simp only [Sight.waited, Sight.since, Sight.restarts, Sight.time, Bool.false_eq_true,
          ↓reduceIte] at helapsed ⊢
        omega
  | true =>
      have hne := hpunctual.balanced.flights_ne_nil_of_due time hdue
      obtain ⟨oldest, rest, hflights⟩ := List.exists_cons_of_ne_nil hne
      simp only [Outbound.after, elapse_of_due hdue hflights] at hbalanced
      simp only [step, sight, Outbound.after, elapse_of_due hdue hflights, retransmit,
        Option.isSome_some]
      refine ⟨hbalanced, ?_, ?_, fun hwaits => rfl, ?_, hpunctual.opened_eq, hpunctual.launched⟩
      · have hinitial := hpunctual.initialTimeout_eq
        rw [← initialTimeout_advance _ time] at hinitial
        split <;> exact hinitial
      · simp only [Sight.doublings, Sight.since, Sight.covers, Sight.repeats, Bool.false_eq_true,
          ↓reduceIte, Bool.true_and, hpunctual.opened_eq] at htimeout ⊢
        rw [← timeout_advance _ time] at htimeout
        by_cases hopen : 0 < timeline.outbound.window
        · rw [if_pos hopen, decide_eq_true hopen, Bool.toNat_true, Nat.pow_succ]
          simp only [Alarm.start, Alarm.backOff, Millis.toNat_doubleCapped, htimeout]
          rw [← Nat.mul_assoc]
          omega
        · rw [if_neg hopen, decide_eq_false hopen]
          exact htimeout
      · exact congrArg (· + 1) hpunctual.retransmissions_eq

theorem step (hpunctual : timeline.Punctual initialTimeout) (event : Event) :
    (timeline.step event).Punctual initialTimeout := by
  cases event with
  | send => exact hpunctual.send
  | receive feedback => exact hpunctual.receive feedback
  | elapse time => exact hpunctual.elapse time
  | input op => exact hpunctual.input op

theorem run (hpunctual : timeline.Punctual initialTimeout) (events : List Event) :
    (timeline.run events).Punctual initialTimeout :=
  List.foldlRecOn (motive := (Punctual · initialTimeout)) events _ hpunctual
    fun _ hbefore event _ => hbefore.step event

-- The oldest flight goes out again when all that was waited for it comes to the timeout.
theorem elapse_snd (hpunctual : timeline.Punctual initialTimeout) (time : Millis) :
    (timeline.outbound.elapse time).2 =
      if timeline.outbound.flights ≠ [] ∧ timeline.outbound.alarm.timeout.toNat ≤
          Sight.waited timeline.sights + time.toNat then
        timeline.outbound.flights.head?.map Flight.chunk
      else none := by
  have hrunning := hpunctual.balanced.running_iff
  have hceiling := Millis.le_ceiling timeline.outbound.alarm.timeout
  have hiff := due_advance_iff timeline.outbound.alarm time
  cases hdue : (timeline.outbound.alarm.advance time).due with
  | false =>
      rw [hdue, hrunning] at hiff
      rw [elapse_of_idle hdue, if_neg]
      rintro ⟨hwaits, hlate⟩
      have helapsed := hpunctual.elapsed_eq hwaits
      exact Bool.false_ne_true (hiff.mpr ⟨hwaits, by omega⟩)
  | true =>
      have hwaits := hpunctual.balanced.flights_ne_nil_of_due time hdue
      have helapsed := hpunctual.elapsed_eq hwaits
      obtain ⟨oldest, rest, hflights⟩ := List.exists_cons_of_ne_nil hwaits
      have hlate := (hiff.mp hdue).2
      rw [elapse_of_due hdue hflights, if_pos ⟨hwaits, by omega⟩, hflights]
      rfl

end Punctual

end Timeline

-- Whatever happens to a sender, its timeout is the first one, doubled for each retransmission since
-- the last acknowledgment of a whole chunk that found the window open, as far as a count of
-- milliseconds goes, and its count is that of all these retransmissions. When time passes at most
-- one chunk goes out: the oldest one in flight, as it went out first, and that exactly when the
-- time since the wait for it began comes to the timeout. Feedback that covers no chunk is of no
-- consequence to any of this.
theorem keeps_time (input : Pipe) (initial : SeqNo) (timeout : Millis) (payloadLimit : Nat)
    (events : List Event) :
    let timeline := (Timeline.ofInput input initial timeout payloadLimit).run events
    let outbound := timeline.outbound
    outbound.alarm.timeout.toNat =
        min (timeout.toNat * 2 ^ Sight.doublings timeline.sights) (2 ^ 64 - 1) ∧
      outbound.retransmissions = Sight.repetitions timeline.sights ∧
      outbound.flights.map Flight.chunk <:+ Sight.launches timeline.sights ∧
      (∀ time, (outbound.elapse time).2 =
        if outbound.flights ≠ [] ∧
            outbound.alarm.timeout.toNat ≤ Sight.waited timeline.sights + time.toNat then
          outbound.flights.head?.map Flight.chunk
        else none) ∧
      ∀ feedback, outbound.covers feedback = false →
        (outbound.receive feedback).alarm = outbound.alarm ∧
          (outbound.receive feedback).retransmissions = outbound.retransmissions := by
  intro timeline outbound
  have hpunctual : timeline.Punctual timeout :=
    (Timeline.punctual_ofInput input initial timeout payloadLimit).run events
  refine ⟨hpunctual.timeout_eq, hpunctual.retransmissions_eq, hpunctual.launched,
    hpunctual.elapse_snd, fun feedback hnone => ?_⟩
  rcases hpunctual.balanced.receive_cases feedback with
    ⟨-, input, hreceive⟩ | ⟨hcovers, -⟩
  · rw [hreceive]
    exact ⟨rfl, rfl⟩
  · rw [hnone] at hcovers
    cases hcovers

-- Two retransmissions, and then not time enough for a third.
example :
    let timeline := (Timeline.ofInput (Pipe.empty 10) ⟨0⟩ 1000 100).run
      [.send, .elapse 999, .elapse 1, .elapse 2000, .elapse 700]
    Sight.doublings timeline.sights = 2 ∧ Sight.waited timeline.sights = 700 ∧
      timeline.outbound.alarm.timeout = 4000 := by
  cbv

end UserTcp.Outbound
