import UserTcp.Proofs.Connection.Unheard
import UserTcp.Proofs.Datagram.RoundTrip
import UserTcp.Proofs.Socket.Offers

namespace UserTcp.Terminal

-- The calls of an owner who waits for the peer to begin.
def Call.listens : Call → Bool
  | .read | .handle _ | .catchUp | .wait _ => true
  | .connect | .write _ | .close => false

-- The segment that a call brings to the connection.
def brings (terminal : Terminal) : Call → Option Segment
  | .handle datagram => terminal.heard datagram
  | _ => none

section Offers

variable {link : Type} [Link link]

theorem performAll_cons (terminal : Terminal) (carrier : link) (call : Call) (rest : List Call) :
    terminal.performAll carrier (call :: rest) =
      (terminal.after call).performAll
        (transmit terminal.socket.flow carrier (terminal.spoken call)).1 rest := by
  rw [performAll, perform_eq]

theorem offers_performAll (terminal : Terminal) (watched : Watched link) (calls : List Call) :
    ∃ more, (terminal.performAll watched calls).2.offers = watched.offers ++ more := by
  induction calls generalizing terminal watched with
  | nil => exact ⟨[], (List.append_nil _).symm⟩
  | cons call rest ih =>
      obtain ⟨-, -, offers, -, hoffers, -⟩ :=
        transmit_offers terminal.socket.flow watched (terminal.spoken call)
      obtain ⟨more, hmore⟩ := ih (terminal.after call)
        (transmit terminal.socket.flow watched (terminal.spoken call)).1
      rw [performAll_cons, hmore, hoffers, List.append_assoc]
      exact ⟨_, rfl⟩

-- Nothing more is handed to the link once the connection is broken.
theorem performAll_of_failed {terminal : Terminal}
    (hfailed : terminal.socket.connection.failed = true) (carrier : link) (calls : List Call) :
    (terminal.performAll carrier calls).2 = carrier := by
  induction calls generalizing terminal with
  | nil => rfl
  | cons call rest ih =>
      obtain ⟨hstill, hsilent⟩ := Connection.run_of_failed hfailed (terminal.events call)
      rw [performAll_cons, spoken, hsilent]
      exact ih hstill

-- Without an end of the lingering that its clock can show, a connection takes in neither segments
-- nor time, and reading does not change that.
theorem deaf_after {terminal : Terminal} (hdeaf : ¬terminal.socket.connection.DeadlineFits)
    {call : Call} (hlistens : call.listens = true) :
    ¬(terminal.after call).socket.connection.DeadlineFits ∧ terminal.spoken call = [] := by
  have hinactive : terminal.socket.connection.active ≠ .ok true := fun hactive =>
    hdeaf (Connection.exists_active_iff.mp ⟨true, hactive⟩)
  cases call with
  | connect => cases hlistens
  | write bytes => cases hlistens
  | close => cases hlistens
  | read => exact ⟨hdeaf, rfl⟩
  | handle datagram =>
      simp only [after, spoken, events]
      cases terminal.heard datagram with
      | none => exact ⟨hdeaf, rfl⟩
      | some segment =>
          rw [Option.toList_some, List.map_singleton, Connection.run_singleton, Connection.step,
            Connection.receive_of_inactive segment hinactive]
          exact ⟨hdeaf, rfl⟩
  | catchUp =>
      simp only [after, spoken, events, Core.events]
      split
      · exact ⟨hdeaf, rfl⟩
      · rw [Connection.run_singleton, Connection.step,
          Connection.elapse_of_not_ticks fun hticks => hinactive hticks.active]
        exact ⟨hdeaf, rfl⟩
  | wait microseconds => exact ⟨hdeaf, rfl⟩

theorem performAll_of_deaf {terminal : Terminal}
    (hdeaf : ¬terminal.socket.connection.DeadlineFits) (carrier : link) (calls : List Call)
    (hlistens : ∀ call ∈ calls, call.listens = true) :
    (terminal.performAll carrier calls).2 = carrier := by
  induction calls generalizing terminal with
  | nil => rfl
  | cons call rest ih =>
      obtain ⟨hfirst, hothers⟩ := List.forall_mem_cons.mp hlistens
      obtain ⟨hstill, hsilent⟩ := deaf_after hdeaf hfirst
      rw [performAll_cons, hsilent]
      exact ih hstill hothers

theorem transmit_offers_first (flow : Flow) (watched : Watched link) {segment : Segment}
    (hfits : segment.chunk.payload.length ≤ 65495) (rest : List Segment) :
    ∃ offer more, (transmit flow watched (segment :: rest)).1.offers =
        watched.offers ++ offer :: more ∧
      Datagram.decode offer.packet = .ok (flow, segment.carried) := by
  obtain ⟨packet, hencode, hdecode, -⟩ := Datagram.exists_encode flow segment hfits
  have hpacket := hdecode []
  rw [List.append_nil] at hpacket
  have hoffered : (Link.send watched packet).1.offers =
      watched.offers ++ [⟨packet, (Link.send watched packet).2⟩] := rfl
  rcases transmit_cons flow watched segment rest with
    ⟨error, herror, -⟩ | ⟨other, hother, hsent⟩
  · rw [hencode] at herror
    cases herror
  · cases hencode.symm.trans hother
    rcases hsent with ⟨reason, -, hsame⟩ | ⟨-, hsame⟩
    · rw [hsame]
      exact ⟨_, [], hoffered, hpacket⟩
    · obtain ⟨-, -, offers, -, hoffers, -⟩ :=
        transmit_offers flow (Link.send watched packet).1 rest
      rw [hsame, hoffers, hoffered, List.append_assoc]
      exact ⟨_, offers, rfl, hpacket⟩

end Offers

section Listening

variable {terminal : Terminal}

-- A call that brings no segment finds nothing to send and leaves it at that.
theorem unheard_after (hunheard : terminal.socket.connection.Unheard) {call : Call}
    (hlistens : call.listens = true) (hnone : terminal.brings call = none) :
    (terminal.after call).socket.connection.Unheard ∧ terminal.spoken call = [] := by
  cases call with
  | connect => cases hlistens
  | write bytes => cases hlistens
  | close => cases hlistens
  | read => exact ⟨hunheard.incoming _ rfl, rfl⟩
  | handle datagram =>
      have hheard : terminal.heard datagram = none := hnone
      simp only [after, spoken, events, hheard]
      exact ⟨hunheard, rfl⟩
  | catchUp =>
      simp only [after, spoken, events, Core.events]
      split
      · exact ⟨hunheard, rfl⟩
      · rw [Connection.run_singleton]
        exact hunheard.elapse _
  | wait microseconds => exact ⟨hunheard, rfl⟩

theorem events_of_brings {call : Call} {segment : Segment}
    (hsome : terminal.brings call = some segment) : terminal.events call = [.receive segment] := by
  cases call with
  | handle datagram =>
      have hheard : terminal.heard datagram = some segment := hsome
      rw [events, hheard]
      rfl
  | _ => cases hsome

variable {link : Type} [Link link]

-- The first segment that comes decides: one that breaks the connection keeps it silent, and every
-- other one makes it open.
theorem silent_or_opens (hunheard : terminal.socket.connection.Unheard) (watched : Watched link)
    (calls : List Call) (hlistens : ∀ call ∈ calls, call.listens = true) :
    (∀ segment ∈ (calls.filterMap terminal.brings).head?, segment.breaks = true) ∧
        (terminal.performAll watched calls).2.offers = watched.offers ∨
      (∃ segment ∈ (calls.filterMap terminal.brings).head?, segment.breaks = false) ∧
        ∃ offer more opening,
          (terminal.performAll watched calls).2.offers = watched.offers ++ offer :: more ∧
            Datagram.decode offer.packet = .ok (terminal.socket.flow, opening) ∧
            opening.chunk.syn = true := by
  induction calls generalizing terminal with
  | nil =>
      refine .inl ⟨fun segment hmem => ?_, rfl⟩
      cases hmem
  | cons call rest ih =>
      obtain ⟨hfirst, hothers⟩ := List.forall_mem_cons.mp hlistens
      rw [performAll_cons]
      cases hbrings : terminal.brings call with
      | none =>
          obtain ⟨hstill, hsilent⟩ := unheard_after hunheard hfirst hbrings
          rw [hsilent, List.filterMap_cons_none hbrings]
          exact ih hstill hothers
      | some segment =>
          have hevents := events_of_brings hbrings
          rw [List.filterMap_cons_some hbrings, List.head?_cons, spoken, hevents,
            Connection.run_singleton, Connection.step]
          cases hbreaks : segment.breaks with
          | true =>
              obtain ⟨hbroken, hsilent⟩ := hunheard.receive_of_breaks hbreaks
              have hfailed : (terminal.after call).socket.connection.failed = true := by
                rw [after, hevents, Connection.run_singleton]
                exact hbroken
              rw [hsilent, performAll_of_failed hfailed]
              refine .inl ⟨fun first hmem => ?_, rfl⟩
              cases hmem
              exact hbreaks
          | false =>
              obtain ⟨opening, later, hopens, hsyn, -⟩ := hunheard.receive_opens hbreaks
              have hempty := Connection.payload_eq_nil_of_emits
                (Connection.sends_receive hunheard.sends segment)
                (terminal.socket.connection.emits_receive segment) opening (by
                  rw [hopens]
                  exact List.mem_cons_self)
              rw [hopens]
              obtain ⟨offer, more, hoffers, hdecode⟩ := transmit_offers_first terminal.socket.flow
                watched (by rw [hempty]; exact Nat.zero_le _) later
              obtain ⟨others, hafter⟩ := (terminal.after call).offers_performAll
                (transmit terminal.socket.flow watched (opening :: later)).1 rest
              rw [hafter, hoffers, List.append_assoc]
              exact .inr ⟨⟨segment, rfl, hbreaks⟩, offer, more ++ others, opening.carried, rfl,
                hdecode, hsyn⟩

-- Nothing is handed to the link before a segment comes, and nothing ever when that segment breaks
-- the connection or the clock cannot show the end of the lingering. Every other segment is
-- answered, one without a SYN too, and what goes out first is the SYN of this side.
theorem silent_until_addressed (id : Nat) (flow : Flow) (settings : Settings) (now : Nat)
    (carrier : link) (calls : List Call) (hlistens : ∀ call ∈ calls, call.listens = true) :
    let terminal := Terminal.ofSettings id flow settings now
    let offers := (terminal.performAll (⟨carrier, []⟩ : Watched link) calls).2.offers
    (offers = [] ↔ ¬settings.LingerFits ∨
      ∀ segment ∈ (calls.filterMap terminal.brings).head?, segment.breaks = true) ∧
      ∀ offer ∈ offers.head?, ∃ opening,
        Datagram.decode offer.packet = .ok (flow, opening) ∧ opening.chunk.syn = true := by
  intro terminal offers
  have hsilent (hnone : offers = []) : ∀ offer ∈ offers.head?, ∃ opening,
      Datagram.decode offer.packet = .ok (flow, opening) ∧ opening.chunk.syn = true := by
    rw [hnone]
    exact nofun
  by_cases hfits : settings.LingerFits
  · have hunheard : terminal.socket.connection.Unheard := Connection.unheard_ofSettings id hfits
    rcases silent_or_opens hunheard (⟨carrier, []⟩ : Watched link) calls hlistens with
      ⟨hbreaks, hoffers⟩ | ⟨⟨segment, hmem, hwhole⟩, offer, more, opening, hoffers, hdecode, hsyn⟩
    · have hnone : offers = [] := hoffers
      exact ⟨iff_of_true hnone (.inr hbreaks), hsilent hnone⟩
    · have hsome : offers = offer :: more := hoffers
      have hopened : ¬(¬settings.LingerFits ∨
          ∀ segment ∈ (calls.filterMap terminal.brings).head?, segment.breaks = true) := by
        rintro (hlost | hall)
        · exact hlost hfits
        · rw [hall segment hmem] at hwhole
          cases hwhole
      refine ⟨iff_of_false (hsome ▸ List.cons_ne_nil _ _) hopened, fun first hmem => ?_⟩
      rw [hsome] at hmem
      cases hmem
      exact ⟨opening, hdecode, hsyn⟩
  · have hdeaf : ¬terminal.socket.connection.DeadlineFits := fun hdeadline =>
      hfits ((Connection.deadlineFits_ofSettings id settings).mp hdeadline)
    have hnone : offers = [] := congrArg Watched.offers
      (performAll_of_deaf hdeaf (⟨carrier, []⟩ : Watched link) calls hlistens)
    exact ⟨iff_of_true hnone (.inl hfits), hsilent hnone⟩

-- A reset without a SYN comes before the connection is opened from the other side. It is over then,
-- also for the SYN that follows.
theorem silent_until_addressed_reset :
    let flow : Flow := ⟨⟨⟨10, 0, 0, 2⟩, 40000⟩, ⟨⟨10, 0, 0, 1⟩, 80⟩⟩
    let reset : List UInt8 :=
      [69, 0, 0, 40, 0, 0, 64, 0, 64, 6, 38, 206, 10, 0, 0, 1, 10, 0, 0, 2, 0, 80, 156, 64,
        0, 0, 0, 5, 0, 0, 0, 1, 80, 20, 3, 232, 251, 79, 0, 0]
    let opening : List UInt8 :=
      [69, 0, 0, 40, 0, 0, 64, 0, 64, 6, 38, 206, 10, 0, 0, 1, 10, 0, 0, 2, 0, 80, 156, 64,
        0, 0, 0, 5, 0, 0, 0, 0, 80, 2, 3, 232, 251, 98, 0, 0]
    let calls : List Call :=
      [.read, .handle [0xde, 0xad], .wait 5000, .catchUp, .handle reset, .handle opening, .catchUp]
    let terminal := Terminal.ofSettings 1 flow Settings.standard 0
    (∀ call ∈ calls, call.listens = true) ∧
      (calls.filterMap terminal.brings).map (·.chunk.syn) = [false, true] ∧
      (terminal.performAll (⟨⟨[]⟩, []⟩ : Watched Gate) calls).2.offers = [] := by
  intro flow reset opening calls terminal
  have hlistens : ∀ call ∈ calls, call.listens = true := by decide
  have hbrought : (calls.filterMap terminal.brings).map (fun segment =>
      (segment.chunk.syn, segment.breaks)) = [(false, true), (true, false)] := by
    simp only [calls, terminal, reset, opening, flow]
    cbv
  have hsilent := (silent_until_addressed 1 flow Settings.standard 0 (⟨[]⟩ : Gate) calls
    hlistens).1
  refine ⟨hlistens, ?_, hsilent.mpr (.inr fun segment hmem => ?_)⟩
  · have hsyns := congrArg (List.map Prod.fst) hbrought
    rw [List.map_map] at hsyns
    exact hsyns
  · have hfirst := congrArg List.head? hbrought
    rw [List.head?_map, Option.mem_def.mp hmem] at hfirst
    exact congrArg Prod.snd (Option.some.inj hfirst)

-- A segment that is neither a reset nor a SYN makes a listener send its own SYN.
theorem opens_for_stray :
    let flow : Flow := ⟨⟨⟨10, 0, 0, 2⟩, 40000⟩, ⟨⟨10, 0, 0, 1⟩, 80⟩⟩
    let stray : List UInt8 :=
      [69, 0, 0, 40, 0, 0, 64, 0, 64, 6, 38, 206, 10, 0, 0, 1, 10, 0, 0, 2, 0, 80, 156, 64,
        0, 0, 0, 5, 0, 0, 0, 1, 80, 16, 3, 232, 251, 83, 0, 0]
    let terminal := Terminal.ofSettings 1 flow Settings.standard 0
    Datagram.decode stray =
        .ok (flow.reverse, ⟨⟨⟨5⟩, false, [], false, false⟩, ⟨some ⟨1⟩, 1000, false⟩⟩) ∧
      ((terminal.perform (⟨⟨[]⟩, []⟩ : Watched Gate) (.handle stray)).carrier.offers.map
          fun offer => Datagram.decode offer.packet) =
        [.ok (flow, ⟨⟨⟨0⟩, true, [], false, false⟩, ⟨none, 64000, false⟩⟩)] := by
  refine ⟨?_, ?_⟩
  · cbv
  · cbv

end Listening

end UserTcp.Terminal
