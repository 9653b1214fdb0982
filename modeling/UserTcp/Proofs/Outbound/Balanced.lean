import UserTcp.Proofs.Outbound.Settles
import Mathlib.Data.List.Pairwise
import Mathlib.Data.Nat.PSub

namespace UserTcp.Outbound

-- The alarm runs exactly while something waits for its acknowledgment, and only what waits
-- can have been sent again.
structure Alert (outbound : Outbound) : Prop where
  running_iff : outbound.alarm.running = true ↔ outbound.flights ≠ []
  settled : outbound.flights = [] → outbound.retransmissions = 0

-- What a sender keeps in step whatever is done with it and its input: the flights, the
-- count of sequence numbers in flight, the alarm and the count of retransmissions.
structure Balanced (outbound : Outbound) : Prop extends Alert outbound where
  inFlight_le : outbound.inFlight ≤ outbound.next
  tiles : Tiles (outbound.next - outbound.inFlight) outbound.flights outbound.next
  unsent : outbound.synSent = false → outbound.inFlight = 0

theorem balanced_ofInput (input : Pipe) (initial : SeqNo) (timeout : Millis)
    (payloadLimit : Nat) : (ofInput input initial timeout payloadLimit).Balanced where
  running_iff := by simp [ofInput, Alarm.ofTimeout]
  settled := fun _ => rfl
  inFlight_le := Nat.le_refl 0
  tiles := rfl
  unsent := fun _ => rfl

-- The first sequence number that is not acknowledged, or the next one to send.
def base (outbound : Outbound) : Nat :=
  outbound.next - outbound.inFlight

@[simp] theorem base_launch (outbound : Outbound) (chunk : Chunk) (input : Pipe) :
    (outbound.launch chunk input).base = outbound.base :=
  Nat.add_sub_add_right _ _ _

@[simp] theorem base_send (outbound : Outbound) : outbound.send.1.base = outbound.base :=
  fill_keeps (fun after => after.base = outbound.base) _
    (fun _ hbefore _ _ _ => (base_launch _ _ _).trans hbefore) outbound rfl

@[simp] theorem base_elapse (outbound : Outbound) (time : Millis) :
    (outbound.elapse time).1.base = outbound.base := by
  obtain ⟨alarm, retransmissions, heq⟩ := outbound.elapse_eq time
  rw [heq]
  rfl

theorem next_le_send (outbound : Outbound) : outbound.next ≤ outbound.send.1.next :=
  fill_keeps (fun after => outbound.next ≤ after.next) _
    (fun _ hbefore _ _ _ => Nat.le_trans hbefore (Nat.le_add_right _ _)) outbound (Nat.le_refl _)

-- What is sent ends within the window, counted from the first number without acknowledgment.
theorem next_send_le (outbound : Outbound) (hle : outbound.inFlight ≤ outbound.next) :
    outbound.send.1.next ≤ max outbound.next (outbound.base + outbound.usableWindow) := by
  have hfill := fill_keeps (fun after => after.inFlight ≤ after.next ∧
      after.base = outbound.base ∧
        after.next ≤ max outbound.next (outbound.base + outbound.usableWindow))
    outbound.usableWindow ?_ outbound ⟨hle, rfl, Nat.le_max_left _ _⟩
  · exact hfill.2.2
  · rintro before ⟨hbefore, hbase, -⟩ hroom - -
    have hspan := before.span_cut_le _ hroom
    refine ⟨Nat.add_le_add_right hbefore _, (base_launch _ _ _).trans hbase, ?_⟩
    simp only [launch, base] at hbase ⊢
    omega

@[simp] theorem window_send (outbound : Outbound) : outbound.send.1.window = outbound.window :=
  fill_keeps (fun after => after.window = outbound.window) _ (fun _ hbefore _ _ _ => hbefore)
    outbound rfl

@[simp] theorem syn_cut (outbound : Outbound) (window : Nat) :
    (outbound.cut window).1.syn = !outbound.synSent := rfl

@[simp] theorem running_start (alarm : Alarm) : alarm.start.running = true := rfl

@[simp] theorem running_stop (alarm : Alarm) : alarm.stop.running = false := rfl

@[simp] theorem running_advance (alarm : Alarm) (time : Millis) :
    (alarm.advance time).running = alarm.running := by
  unfold Alarm.advance
  split <;> rfl

namespace Alert

variable {outbound : Outbound}

protected theorem launch (outbound : Outbound) (chunk : Chunk) (input : Pipe) :
    (outbound.launch chunk input).Alert where
  running_iff := by cases hrunning : outbound.alarm.running <;> simp [Outbound.launch, hrunning]
  settled := by
    intro hempty
    simp [Outbound.launch] at hempty

protected theorem acknowledge (halert : outbound.Alert) (ack : Nat) :
    (outbound.acknowledge ack).Alert := by
  simp only [Outbound.acknowledge]
  split
  · refine ⟨?_, fun _ => rfl⟩
    -- what is left decides whether the alarm starts again
    cases hleft : (forget ack outbound.flights outbound.inFlight).1 <;> simp
  · exact halert

protected theorem receive (halert : outbound.Alert) (feedback : Feedback) :
    (outbound.receive feedback).Alert := by
  have hwindow : { outbound with window := feedback.window }.Alert :=
    ⟨halert.running_iff, halert.settled⟩
  simp only [Outbound.receive]
  split
  · exact ⟨halert.running_iff, halert.settled⟩
  · split
    · split
      · exact ⟨halert.running_iff, halert.settled⟩
      · exact hwindow
    · split
      · exact hwindow
      · exact hwindow.acknowledge _

-- The alarm of a sender with nothing to wait for is never due.
theorem flights_ne_nil_of_due (halert : outbound.Alert) (time : Millis)
    (hdue : (outbound.alarm.advance time).due = true) : outbound.flights ≠ [] := by
  have hrunning := (Bool.and_eq_true_iff.mp hdue).1
  rw [running_advance] at hrunning
  exact halert.running_iff.mp hrunning

theorem retransmissions_of_due (halert : outbound.Alert) {time : Millis}
    (hdue : (outbound.alarm.advance time).due = true) :
    (outbound.elapse time).1.retransmissions = outbound.retransmissions + 1 := by
  obtain ⟨oldest, rest, hflights⟩ :=
    List.exists_cons_of_ne_nil (halert.flights_ne_nil_of_due time hdue)
  rw [elapse_of_due hdue hflights]
  rfl

protected theorem elapse (halert : outbound.Alert) (time : Millis) :
    (outbound.elapse time).1.Alert := by
  simp only [Outbound.elapse]
  split
  · rename_i hdue
    have hflights := halert.flights_ne_nil_of_due time hdue
    split
    · rename_i hempty
      exact absurd hempty hflights
    · exact ⟨⟨fun _ => hflights, fun _ => rfl⟩, fun hempty => absurd hempty hflights⟩
  · exact ⟨by rw [running_advance]; exact halert.running_iff, halert.settled⟩

end Alert

namespace Tiles

variable {flights : List Flight} {start stop : Nat}

theorem add_spans (htiles : Tiles start flights stop) :
    start + spans (flights.map Flight.chunk) = stop := by
  induction flights generalizing start with
  | nil => exact htiles
  | cons flight rest ih =>
      obtain ⟨rfl, -, hrest⟩ := htiles
      rw [List.map_cons, spans_cons, ← Nat.add_assoc]
      exact ih hrest

theorem pairwise (htiles : Tiles start flights stop) :
    flights.Pairwise fun first second => first.stop ≤ second.start := by
  induction flights generalizing start with
  | nil => exact List.Pairwise.nil
  | cons flight rest ih =>
      obtain ⟨-, -, hrest⟩ := htiles
      exact List.pairwise_cons.mpr ⟨fun later hmem => (hrest.mem later hmem).1, ih hrest⟩

end Tiles

namespace Balanced

variable {outbound : Outbound}

theorem inFlight_eq (hbalanced : outbound.Balanced) :
    outbound.inFlight = spans (outbound.flights.map Flight.chunk) := by
  have hsum := hbalanced.tiles.add_spans
  have hle := hbalanced.inFlight_le
  omega

protected theorem launch (hbalanced : outbound.Balanced) (window : Nat)
    (hspan : 0 < (outbound.cut window).1.span) :
    (outbound.launch (outbound.cut window).1 (outbound.cut window).2).Balanced where
  toAlert := Alert.launch outbound _ _
  inFlight_le := Nat.add_le_add_right hbalanced.inFlight_le _
  tiles := by
    simp only [Outbound.launch, Nat.add_sub_add_right]
    exact (tiles_append _ _ _ _).mpr ⟨_, hbalanced.tiles, tiles_singleton _ _ hspan⟩
  unsent := by
    intro hunsent
    simp [Outbound.launch] at hunsent

protected theorem send (hbalanced : outbound.Balanced) : outbound.send.1.Balanced :=
  fill_keeps Balanced _ (fun _ hbefore _ _ hspan => hbefore.launch _ hspan) outbound hbalanced

theorem settle (hbalanced : outbound.Balanced) {after : Outbound} {ack : Nat}
    (hsettles : Settles outbound after ack) (halert : after.Alert) : after.Balanced where
  toAlert := halert
  inFlight_le := by
    rw [hsettles.next_eq]
    exact Nat.le_trans hsettles.inFlight_le hbalanced.inFlight_le
  tiles := hsettles.tiles
  unsent := by
    intro hunsent
    rw [hsettles.synSent_eq] at hunsent
    exact Nat.le_zero.mp (hbalanced.unsent hunsent ▸ hsettles.inFlight_le)

protected theorem receive (hbalanced : outbound.Balanced) (feedback : Feedback) :
    (outbound.receive feedback).Balanced :=
  hbalanced.settle (settles_receive hbalanced.tiles hbalanced.inFlight_le feedback)
    (hbalanced.toAlert.receive feedback)

protected theorem elapse (hbalanced : outbound.Balanced) (time : Millis) :
    (outbound.elapse time).1.Balanced :=
  hbalanced.settle (settles_elapse hbalanced.tiles time) (hbalanced.toAlert.elapse time)

theorem mapInput (hbalanced : outbound.Balanced) (input : Pipe) :
    { outbound with input := input }.Balanced where
  running_iff := hbalanced.running_iff
  settled := hbalanced.settled
  inFlight_le := hbalanced.inFlight_le
  tiles := hbalanced.tiles
  unsent := hbalanced.unsent

end Balanced

-- Forgetting, with a look before each subtraction whether it stays above zero.
def forget? (ack : Nat) : List Flight → Nat → Option (List Flight × Nat)
  | [], inFlight => some ([], inFlight)
  | flight :: rest, inFlight =>
      if flight.stop ≤ ack then (inFlight.psub flight.chunk.span).bind (forget? ack rest)
      else some (flight :: rest, inFlight)

-- The room that a window leaves for payload and FIN, if it leaves any for the SYN.
def room? (outbound : Outbound) (window : Nat) : Option Nat :=
  (window.psub outbound.inFlight).bind fun left => left.psub (!outbound.synSent).toNat

-- The next fresh chunk when the room is known.
def cutFor (outbound : Outbound) (room : Nat) : Chunk × Pipe :=
  let taken := outbound.input.read (min (min room outbound.payloadLimit) outbound.input.buffered)
  let fin := taken.2.drained && decide (taken.1.length < room)
  ({ outbound.emptyChunk with syn := !outbound.synSent, payload := taken.1, fin := fin }, taken.2)

-- Filling the window, with a look at each chunk whether there is a room for it.
def fill? (outbound : Outbound) (window : Nat) : Option (Outbound × List Chunk) :=
  if outbound.inFlight < window ∧ outbound.finSent = false then
    match outbound.room? window with
    | none => none
    | some room =>
        let fresh := outbound.cutFor room
        if 0 < fresh.1.span then
          ((outbound.launch fresh.1 fresh.2).fill? window).map fun rest =>
            (rest.1, fresh.1 :: rest.2)
        else some (outbound, [])
  else some (outbound, [])
termination_by window - outbound.inFlight
decreasing_by
  rename_i hroom hspan
  change 0 < (outbound.cutFor room).1.span at hspan
  simp only [launch]
  omega

theorem forget?_eq (ack : Nat) (flights : List Flight) (inFlight : Nat)
    (hsum : inFlight = spans (flights.map Flight.chunk)) :
    forget? ack flights inFlight = some (forget ack flights inFlight) := by
  fun_induction forget ack flights inFlight with
  | case1 inFlight => rfl
  | case2 flight rest inFlight hcovered ih =>
      rw [List.map_cons, spans_cons] at hsum
      rw [forget?, if_pos hcovered, Nat.psub_eq_sub (by omega), Option.bind_some]
      exact ih (by omega)
  | case3 flight rest inFlight hcovered => rw [forget?, if_neg hcovered]

namespace Balanced

variable {outbound : Outbound}

-- An open window has a place for the SYN, since nothing is in flight before it.
theorem room?_eq (hbalanced : outbound.Balanced) (window : Nat)
    (hroom : outbound.inFlight < window) :
    outbound.room? window =
      some (window - outbound.inFlight - (!outbound.synSent).toNat) := by
  have hsyn : outbound.inFlight + (!outbound.synSent).toNat ≤ window := by
    cases hsent : outbound.synSent with
    | false =>
        have hnone := hbalanced.unsent hsent
        simp only [Bool.not_false, Bool.toNat_true]
        omega
    | true =>
        simp only [Bool.not_true, Bool.toNat_false]
        omega
  rw [room?, Nat.psub_eq_sub (Nat.le_of_lt hroom), Option.bind_some,
    Nat.psub_eq_sub (by omega)]

theorem fill?_eq (hbalanced : outbound.Balanced) (window : Nat) :
    outbound.fill? window = some (outbound.fill window) := by
  fun_induction Outbound.fill outbound window with
  | case1 outbound hroom fresh hspan rest ih =>
      have hcut : outbound.cutFor (window - outbound.inFlight - (!outbound.synSent).toNat) =
          outbound.cut window := rfl
      have hrest : fill? _ window = some rest := ih (hbalanced.launch window hspan)
      rw [fill?, if_pos hroom, hbalanced.room?_eq window hroom.1]
      simp only [hcut]
      rw [if_pos hspan, hrest]
      rfl
  | case2 outbound hroom fresh hspan =>
      have hcut : outbound.cutFor (window - outbound.inFlight - (!outbound.synSent).toNat) =
          outbound.cut window := rfl
      rw [fill?, if_pos hroom, hbalanced.room?_eq window hroom.1]
      simp only [hcut]
      rw [if_neg hspan]
  | case3 outbound hroom => rw [fill?, if_neg hroom]

end Balanced

-- What can happen to a sender. Anything may be done with its input.
inductive Event where
  | send
  | receive (feedback : Feedback)
  | elapse (time : Millis)
  | input (op : Pipe.Op)

def after (outbound : Outbound) : Event → Outbound
  | .send => outbound.send.1
  | .receive feedback => outbound.receive feedback
  | .elapse time => (outbound.elapse time).1
  | .input op => { outbound with input := (outbound.input.apply op).2 }

def afterAll (outbound : Outbound) (events : List Event) : Outbound :=
  events.foldl after outbound

theorem balanced_after {outbound : Outbound} (hbalanced : outbound.Balanced) (event : Event) :
    (outbound.after event).Balanced := by
  cases event with
  | send => exact hbalanced.send
  | receive feedback => exact hbalanced.receive feedback
  | elapse time => exact hbalanced.elapse time
  | input op => exact hbalanced.mapInput _

theorem balanced_afterAll {outbound : Outbound} (hbalanced : outbound.Balanced)
    (events : List Event) : (outbound.afterAll events).Balanced := by
  induction events generalizing outbound with
  | nil => exact hbalanced
  | cons event rest ih => exact ih (balanced_after hbalanced event)

-- Whatever happens to a sender, the flights are the sequence numbers that it counts as in
-- flight, one after another up to the next one to send, and the alarm watches over them.
-- So nothing is ever subtracted from less, and an alarm that is due has a flight to send.
theorem keeps_count (input : Pipe) (initial : SeqNo) (timeout : Millis) (payloadLimit : Nat)
    (events : List Event) :
    let outbound := (ofInput input initial timeout payloadLimit).afterAll events
    outbound.inFlight ≤ outbound.next ∧
      Tiles (outbound.next - outbound.inFlight) outbound.flights outbound.next ∧
      (outbound.flights.Pairwise fun first second => first.stop ≤ second.start) ∧
      outbound.inFlight = spans (outbound.flights.map Flight.chunk) ∧
      (outbound.synSent = false → outbound.inFlight = 0) ∧
      (outbound.alarm.running = true ↔ outbound.flights ≠ []) ∧
      (outbound.flights = [] → outbound.retransmissions = 0) ∧
      outbound.fill? outbound.usableWindow = some outbound.send ∧
      (∀ ack, forget? ack outbound.flights outbound.inFlight =
        some (forget ack outbound.flights outbound.inFlight)) ∧
      ∀ time, (outbound.alarm.advance time).due = true → outbound.flights ≠ [] := by
  intro outbound
  have hbalanced : outbound.Balanced :=
    balanced_afterAll (balanced_ofInput input initial timeout payloadLimit) events
  exact ⟨hbalanced.inFlight_le, hbalanced.tiles, hbalanced.tiles.pairwise, hbalanced.inFlight_eq,
    hbalanced.unsent, hbalanced.running_iff, hbalanced.settled, hbalanced.fill?_eq _,
    fun ack => forget?_eq ack _ _ hbalanced.inFlight_eq,
    hbalanced.toAlert.flights_ne_nil_of_due⟩

end UserTcp.Outbound
