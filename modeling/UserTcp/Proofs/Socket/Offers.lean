import UserTcp.Proofs.Link.Watched
import UserTcp.Proofs.Socket.Terminal

namespace UserTcp.Terminal

variable {link : Type} [Link link]

theorem performAll_fst (terminal : Terminal) (carrier : link) (calls : List Call) :
    (terminal.performAll carrier calls).1 = calls.foldl after terminal := by
  induction calls generalizing terminal carrier with
  | nil => rfl
  | cons call rest ih =>
      rw [performAll, ih, perform_eq]
      rfl

theorem perform_watched (terminal : Terminal) (watched : Watched link) (call : Call) :
    terminal.perform watched.carrier call =
      ⟨(terminal.perform watched call).terminal, (terminal.perform watched call).carrier.carrier,
        (terminal.perform watched call).result⟩ := by
  simp only [perform_eq, transmit_watched]

-- Who is cut short by overflow has said nothing.
theorem spoken_of_cut {terminal : Terminal} {call : Call} {cause : Overflow}
    (hcut : terminal.spoken? call = .error cause) : terminal.spoken call = [] := by
  have hsingle (event : Connection.Event)
      (hevent : terminal.socket.connection.run? [event] = .error cause) :
      (terminal.socket.connection.run [event]).2 = [] := by
    rw [Connection.run?_singleton] at hevent
    rw [Connection.run_singleton, Connection.step_eq_leave, hevent]
    rfl
  rw [spoken?] at hcut
  rw [spoken]
  cases call with
  | connect => exact hsingle .send hcut
  | write bytes => cases hcut
  | close => cases hcut
  | read => rfl
  | handle datagram =>
      rw [events] at hcut ⊢
      cases hheard : terminal.heard datagram with
      | none => rfl
      | some segment =>
          rw [hheard] at hcut
          exact hsingle (.receive segment) hcut
  | catchUp =>
      simp only [events, Core.events] at hcut ⊢
      by_cases htime : wholeMillis terminal.core.idle = 0
      · rw [if_pos htime]
        rfl
      · rw [if_neg htime] at hcut ⊢
        exact hsingle _ hcut
  | wait microseconds => rfl

theorem ending_eq_overflow_iff {call : Except Overflow (Connection × List Segment)}
    {sent : Except Failure Unit} (hsent : ∀ cause, sent ≠ .error (.overflow cause))
    (cause : Overflow) : ending call sent = .error (.overflow cause) ↔ call = .error cause := by
  cases call with
  | error other => exact ⟨fun hsame => by cases hsame; rfl, fun hsame => by cases hsame; rfl⟩
  | ok moved => exact ⟨fun hsame => absurd hsame (hsent cause), nofun⟩

-- Whatever two links do with what they are offered, the terminal ends up the same. What it offers
-- in a call are the segments that its connection sends in that call, up to the first failure, and
-- that failure is the result. No link makes a call end in overflow or keeps it from that.
theorem unmoved_by_link {other : Type} [Link other] (terminal : Terminal) (carrier : link)
    (another : other) (calls : List Call) :
    (terminal.performAll carrier calls).1 = (terminal.performAll another calls).1 ∧
      ∀ call,
        let reached := terminal.performAll carrier calls
        let outcome := reached.1.perform reached.2 call
        let watched := reached.1.perform (⟨reached.2, []⟩ : Watched link) call
        outcome = ⟨watched.terminal, watched.carrier.carrier, watched.result⟩ ∧
          (∃ sent unsent, reached.1.spoken call = sent ++ unsent ∧
            watched.carrier.offers.map (fun offer => .ok offer.packet) =
              sent.map (Datagram.encode reached.1.socket.flow) ∧
            Ends reached.1.socket.flow watched.carrier.offers unsent watched.result) ∧
          ∀ cause, watched.result = .error (.overflow cause) ↔
            reached.1.socket.connection.run? (reached.1.events call) = .error cause := by
  refine ⟨by rw [performAll_fst, performAll_fst], fun call => ?_⟩
  intro reached outcome watched
  have hperform : watched = _ := reached.1.perform_eq (⟨reached.2, []⟩ : Watched link) call
  refine ⟨reached.1.perform_watched ⟨reached.2, []⟩ call, ?_, fun cause => ?_⟩
  · rw [hperform]
    cases hcut : reached.1.spoken? call with
    | error cause =>
        rw [spoken_of_cut hcut]
        exact ⟨[], [], rfl, rfl, rfl, rfl⟩
    | ok moved =>
        obtain ⟨sent, unsent, offers, hspoken, hoffers, hmap, hends⟩ :=
          transmit_offers reached.1.socket.flow (⟨reached.2, []⟩ : Watched link)
            (reached.1.spoken call)
        rw [List.nil_append] at hoffers
        refine ⟨sent, unsent, hspoken, ?_, ?_⟩
        · rw [hoffers, hmap]
        · rw [hoffers]
          exact hends
  · rw [hperform]
    exact ending_eq_overflow_iff (transmit_ne_overflow _ _ _) cause

end UserTcp.Terminal
