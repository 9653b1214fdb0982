import UserTcp.Proofs.Outbound.Balanced
import Mathlib

namespace UserTcp.Outbound

variable {outbound : Outbound}

theorem forget_suffix (ack : Nat) (flights : List Flight) (inFlight : Nat) :
    (forget ack flights inFlight).1 <:+ flights := by
  fun_induction forget ack flights inFlight with
  | case1 inFlight => exact List.suffix_rfl
  | case2 flight rest inFlight hcovered ih => exact ih.trans (List.suffix_cons flight rest)
  | case3 flight rest inFlight hcovered => exact List.suffix_rfl

-- Nothing is taken off the count unless a flight goes.
theorem forget_of_length {ack inFlight : Nat} {flights : List Flight}
    (hall : ¬ (forget ack flights inFlight).1.length < flights.length) :
    forget ack flights inFlight = (flights, inFlight) := by
  cases flights with
  | nil => rfl
  | cons flight rest =>
      have hopen : ¬ flight.stop ≤ ack := by
        intro hcovered
        have hle := (forget_suffix ack rest (inFlight - flight.chunk.span)).length_le
        rw [forget, if_pos hcovered, List.length_cons] at hall
        omega
      rw [forget, if_neg hopen]

-- A second acknowledgment goes on where the first has stopped, or finds nothing left to do.
theorem forget_forget (first second : Nat) (flights : List Flight) (inFlight : Nat) :
    forget second (forget first flights inFlight).1 (forget first flights inFlight).2 =
      forget (max first second) flights inFlight := by
  fun_induction forget first flights inFlight with
  | case1 inFlight => rfl
  | case2 flight rest inFlight hcovered ih =>
      rw [ih, forget, if_pos (Nat.le_trans hcovered (Nat.le_max_left first second))]
  | case3 flight rest inFlight hopen =>
      cases Nat.le_total first second with
      | inl hle => rw [Nat.max_eq_right hle]
      | inr hge =>
          have hopen' : ¬ flight.stop ≤ second := fun hcovered =>
            hopen (Nat.le_trans hcovered hge)
          rw [Nat.max_eq_left hge, forget, if_neg hopen', forget, if_neg hopen]

theorem acknowledge_of_length {ack : Nat}
    (hall : ¬ (forget ack outbound.flights outbound.inFlight).1.length <
      outbound.flights.length) : outbound.acknowledge ack = outbound := by
  simp only [acknowledge, if_neg hall]

-- Of two acknowledgments the further one counts, whichever comes first.
theorem acknowledge_acknowledge (outbound : Outbound) (first second : Nat) :
    (outbound.acknowledge first).acknowledge second = outbound.acknowledge (max first second) := by
  have htwice := forget_forget first second outbound.flights outbound.inFlight
  by_cases hfirst : (forget first outbound.flights outbound.inFlight).1.length <
      outbound.flights.length
  · have hsuffix := forget_suffix second (forget first outbound.flights outbound.inFlight).1
      (forget first outbound.flights outbound.inFlight).2
    have hboth : (forget (max first second) outbound.flights outbound.inFlight).1.length <
        outbound.flights.length := by
      rw [← htwice]
      exact Nat.lt_of_le_of_lt hsuffix.length_le hfirst
    by_cases hsecond : (forget second (forget first outbound.flights outbound.inFlight).1
        (forget first outbound.flights outbound.inFlight).2).1.length <
          (forget first outbound.flights outbound.inFlight).1.length
    · simp only [acknowledge, if_pos hfirst, htwice, if_pos hboth]
      rw [htwice] at hsecond
      rw [if_pos hsecond]
      -- the alarm was set back once already
      split <;> split <;> rfl
    · rw [forget_of_length hsecond] at htwice
      simp only [acknowledge, if_pos hfirst, if_neg hsecond, ← htwice]
  · rw [acknowledge_of_length hfirst]
    rw [forget_of_length hfirst] at htwice
    simp only [acknowledge, htwice]

-- Of flights in a row those that an acknowledgment leaves are those that it does not reach the end
-- of.
theorem flights_forget {ack start stop inFlight : Nat} {flights : List Flight}
    (htiles : Tiles start flights stop) :
    (forget ack flights inFlight).1 = flights.filter fun flight => decide (ack < flight.stop) := by
  fun_induction forget ack flights inFlight generalizing start with
  | case1 inFlight => rfl
  | case2 flight rest inFlight hcovered ih =>
      obtain ⟨-, -, hrest⟩ := htiles
      rw [ih hrest, List.filter_cons_of_neg (by simp [hcovered])]
  | case3 flight rest inFlight hopen =>
      obtain ⟨-, hspan, hrest⟩ := htiles
      refine (List.filter_eq_self.mpr fun later hmem => ?_).symm
      have hlater : flight.stop ≤ later.stop := by
        rcases List.mem_cons.mp hmem with rfl | hmem
        · exact Nat.le_refl _
        · exact Nat.le_trans (hrest.mem later hmem).1 (Nat.le_add_right _ _)
      exact decide_eq_true (Nat.lt_of_lt_of_le (Nat.lt_of_not_le hopen) hlater)

-- A sender once an acknowledgment has left it these flights. When that are all of them it is as it
-- was.
def leaving (outbound : Outbound) (left : List Flight) : Outbound :=
  if left = outbound.flights then outbound
  else
    { outbound with
      flights := left
      inFlight := spans (left.map Flight.chunk)
      retransmissions := 0
      alarm := {
        initialTimeout := outbound.alarm.initialTimeout
        timeout := outbound.alarm.initialTimeout
        elapsed := 0
        running := !left.isEmpty } }

theorem flights_leaving (outbound : Outbound) (left : List Flight) :
    (outbound.leaving left).flights = left := by
  unfold leaving
  split
  · rename_i hall
    exact hall.symm
  · rfl

theorem Balanced.acknowledge_eq (hbalanced : outbound.Balanced) (ack : Nat) :
    outbound.acknowledge ack =
      outbound.leaving (outbound.flights.filter fun flight => decide (ack < flight.stop)) := by
  have hleft : (forget ack outbound.flights outbound.inFlight).1 = _ :=
    flights_forget hbalanced.tiles
  have hafter : (outbound.acknowledge ack).Balanced :=
    hbalanced.settle (settles_acknowledge outbound ack hbalanced.tiles hbalanced.inFlight_le)
      (hbalanced.toAlert.acknowledge ack)
  have hcount := hafter.inFlight_eq
  rw [leaving, ← hleft]
  by_cases hall : (forget ack outbound.flights outbound.inFlight).1.length <
      outbound.flights.length
  · have hne : (forget ack outbound.flights outbound.inFlight).1 ≠ outbound.flights := fun heq =>
      Nat.ne_of_lt hall (congrArg List.length heq)
    simp only [acknowledge, if_pos hall] at hcount ⊢
    rw [if_neg hne, hcount]
    cases (forget ack outbound.flights outbound.inFlight).1 <;> rfl
  · rw [acknowledge_of_length hall, forget_of_length hall, if_pos rfl]

-- The furthest of the indices that some feedback acknowledges. One behind the next index to send
-- does not count.
def furthest? (outbound : Outbound) (feedbacks : List Feedback) : Option Nat :=
  ((feedbacks.map outbound.acked).filter fun ack => decide (ack ≤ outbound.next)).max?

theorem furthest?_cons (outbound : Outbound) (feedback : Feedback) (rest : List Feedback) :
    outbound.furthest? (feedback :: rest) =
      if outbound.acked feedback ≤ outbound.next then
        some ((outbound.furthest? rest).elim (outbound.acked feedback)
          (max (outbound.acked feedback)))
      else outbound.furthest? rest := by
  simp only [furthest?, List.map_cons, List.filter_cons, decide_eq_true_eq]
  split
  · rw [List.max?_cons]
  · rfl

-- Neither the order of some feedback nor how often it comes is seen in its furthest index.
theorem furthest?_congr (outbound : Outbound) {first second : List Feedback}
    (hsame : ∀ feedback, feedback ∈ first ↔ feedback ∈ second) :
    outbound.furthest? first = outbound.furthest? second := by
  refine Option.ext fun ack => ?_
  simp only [furthest?, List.max?_eq_some_iff, List.mem_filter, List.mem_map, hsame]

-- Takes an acknowledgment, if there is one.
def confirm (outbound : Outbound) (ack : Option Nat) : Outbound :=
  ack.elim outbound outbound.acknowledge

-- The window has no part in what an acknowledgment does.
theorem confirm_window (outbound : Outbound) (window : UInt16) (ack : Option Nat) :
    { outbound with window := window }.confirm ack =
      { outbound.confirm ack with window := window } := by
  cases ack with
  | none => rfl
  | some ack =>
      simp only [confirm, Option.elim_some, acknowledge]
      split <;> rfl

theorem furthest?_confirm (outbound : Outbound) (ack : Option Nat) (window : UInt16)
    (feedbacks : List Feedback) :
    { outbound.confirm ack with window := window }.furthest? feedbacks =
      outbound.furthest? feedbacks := by
  cases ack with
  | none => rfl
  | some ack =>
      simp only [confirm, Option.elim_some, acknowledge]
      split <;> rfl

theorem confirm_confirm (outbound : Outbound) (feedback : Feedback) (rest : List Feedback) :
    (outbound.confirm (outbound.furthest? [feedback])).confirm (outbound.furthest? rest) =
      outbound.confirm (outbound.furthest? (feedback :: rest)) := by
  have hnone : outbound.furthest? [] = none := rfl
  rw [furthest?_cons, furthest?_cons, hnone]
  split
  · cases outbound.furthest? rest with
    | none => rfl
    | some ack => exact outbound.acknowledge_acknowledge _ ack
  · rfl

theorem receive_eq_confirm (outbound : Outbound) {feedback : Feedback}
    (hplain : feedback.rst = false ∧ feedback.ackno ≠ none) :
    outbound.receive feedback =
      { outbound.confirm (outbound.furthest? [feedback]) with window := feedback.window } := by
  have hnone : outbound.furthest? [] = none := rfl
  obtain ⟨ackno, hackno⟩ := Option.ne_none_iff_exists'.mp hplain.2
  have hacked : outbound.acked feedback = ackno.nearestIndex outbound.initial outbound.next := by
    rw [acked, hackno]
    rfl
  rw [← confirm_window, furthest?_cons, hnone, hacked]
  simp only [receive, hplain.1, Bool.false_eq_true, ↓reduceIte, hackno]
  by_cases hsent : ackno.nearestIndex outbound.initial outbound.next ≤ outbound.next
  · rw [if_neg (Nat.not_lt.mpr hsent), if_pos hsent]
    rfl
  · rw [if_pos (Nat.lt_of_not_le hsent), if_neg hsent]
    rfl

-- Feedback after feedback comes to the furthest of the acknowledgments, and to the last window.
theorem foldl_receive (outbound : Outbound) (feedbacks : List Feedback)
    (hplain : ∀ feedback ∈ feedbacks, feedback.rst = false ∧ feedback.ackno ≠ none) :
    feedbacks.foldl receive outbound =
      { outbound.confirm (outbound.furthest? feedbacks) with
        window := (feedbacks.getLast?.map Feedback.window).getD outbound.window } := by
  induction feedbacks generalizing outbound with
  | nil => rfl
  | cons feedback rest ih =>
      obtain ⟨hfirst, hrest⟩ := List.forall_mem_cons.mp hplain
      rw [List.foldl_cons, ih _ hrest, outbound.receive_eq_confirm hfirst, furthest?_confirm,
        confirm_window, confirm_confirm, List.getLast?_cons]
      cases rest.getLast? <;> rfl

-- Acknowledgments are cumulative. When only feedback comes, each with an acknowledgment, the
-- flights up to the furthest of them go and the others stay, in whatever order and however often
-- it comes. When none goes nothing has happened to the sender, and otherwise its alarm starts
-- over. Only the window tells what came last.
theorem acknowledges_in_any_order (input : Pipe) (initial : SeqNo) (timeout : Millis)
    (payloadLimit : Nat) (events : List Event) (feedbacks order : List Feedback)
    (hplain : ∀ feedback ∈ feedbacks, feedback.rst = false ∧ feedback.ackno ≠ none)
    (hsame : ∀ feedback, feedback ∈ order ↔ feedback ∈ feedbacks) :
    let outbound := (ofInput input initial timeout payloadLimit).afterAll events
    let left := outbound.flights.filter fun flight =>
      !(outbound.furthest? feedbacks).any fun ack => decide (flight.stop ≤ ack)
    let reached := order.foldl receive outbound
    let last := (order.getLast?.map Feedback.window).getD outbound.window
    reached = { feedbacks.foldl receive outbound with window := last } ∧
      reached.flights = left ∧
      reached = { outbound.leaving left with window := last } := by
  intro outbound left reached last
  have hbalanced : outbound.Balanced :=
    balanced_afterAll (balanced_ofInput input initial timeout payloadLimit) events
  have hleft : outbound.confirm (outbound.furthest? feedbacks) = outbound.leaving left := by
    simp only [left]
    cases outbound.furthest? feedbacks with
    | none => simp [confirm, leaving]
    | some ack =>
        simp only [Option.any_some, ← decide_not, Nat.not_le]
        exact hbalanced.acknowledge_eq ack
  have horder : reached =
      { outbound.confirm (outbound.furthest? feedbacks) with window := last } := by
    rw [← outbound.furthest?_congr hsame]
    exact outbound.foldl_receive order fun feedback hmem =>
      hplain feedback ((hsame feedback).mp hmem)
  have hreached : reached = { outbound.leaving left with window := last } := by rw [horder, hleft]
  refine ⟨?_, ?_, hreached⟩
  · rw [horder, outbound.foldl_receive feedbacks hplain]
  · rw [hreached]
    exact flights_leaving outbound left

-- Three chunks are in flight across the end of a lap. The furthest acknowledgment that counts ends
-- inside of the second one: the other acknowledgments are older, or of what was never sent. They
-- come in two orders and some of them twice.
theorem acknowledges_in_any_order_backwards :
    let initial : SeqNo := ⟨4294967292⟩
    let ack (index : Nat) (window : UInt16) : Feedback :=
      ⟨some (.ofIndex index initial), window, false⟩
    let events : List Event :=
      [.send, .receive (ack 1 100), .input (.push [1, 2, 3, 4, 5, 6]), .send, .elapse 700]
    let feedbacks := [ack 4 9, ack 1 0, ack 3 7, ack 8 5]
    let order := [ack 8 5, ack 3 7, ack 3 7, ack 1 0, ack 4 9, ack 1 0]
    let outbound := (ofInput (Pipe.empty 10) initial 1000 2).afterAll events
    let left := outbound.flights.filter fun flight =>
      !(outbound.furthest? feedbacks).any fun ack => decide (flight.stop ≤ ack)
    let reached := order.foldl receive outbound
    let last := (order.getLast?.map Feedback.window).getD outbound.window
    (∀ feedback ∈ feedbacks, feedback.rst = false ∧ feedback.ackno ≠ none) ∧
      (∀ feedback, feedback ∈ order ↔ feedback ∈ feedbacks) ∧
      outbound.flights.map Flight.start = [1, 3, 5] ∧ left.map Flight.start = [3, 5] ∧ last = 0 ∧
      reached = { feedbacks.foldl receive outbound with window := last } ∧
      reached.flights = left ∧
      reached = { outbound.leaving left with window := last } := by
  intro initial ack events feedbacks order outbound left reached last
  have hplain : ∀ feedback ∈ feedbacks, feedback.rst = false ∧ feedback.ackno ≠ none := by decide
  have hsame : ∀ feedback, feedback ∈ order ↔ feedback ∈ feedbacks := by
    intro feedback
    simp only [order, feedbacks, List.mem_cons, List.not_mem_nil, or_false]
    tauto
  refine ⟨hplain, hsame, ?_, ?_, rfl,
    acknowledges_in_any_order (Pipe.empty 10) initial 1000 2 events feedbacks order hplain hsame⟩
  · simp only [outbound, events, ack, initial]
    cbv
  · simp only [left, outbound, events, feedbacks, ack, initial]
    cbv

end UserTcp.Outbound
