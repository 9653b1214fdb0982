import UserTcp.Proofs.Connection.Spares
import UserTcp.Proofs.Network.Delivery

namespace UserTcp

-- What a move can do to one side, with its wire and the parcel that comes to it.
inductive Host.Happens (host : Host) (wire : List Parcel) :
    Option Parcel → Host → List Parcel → Prop where
  | idle (fewer : List Parcel) (hfewer : fewer ⊆ wire) : Happens host wire none host fewer
  | perform (call : Host.Call) :
      Happens host wire none (host.perform call).1 (wire ++ (host.perform call).2)
  | receive (parcel : Parcel) (hclear : host.reports parcel = []) :
      Happens host wire (some parcel) (host.receive parcel).1 (wire ++ (host.receive parcel).2)

-- The window that the last of some parcels reports. At first there is room for the SYN.
def lastWindow (heard : List Parcel) : UInt16 :=
  (heard.getLast?.map fun parcel => parcel.segment.feedback.window).getD 1

-- The highest index that any of some parcels leaves room for.
def granted (heard : List Parcel) : Nat :=
  heard.foldr (fun parcel most =>
    max (parcel.acked.getD 0 + parcel.segment.feedback.window.toNat) most) 0

theorem le_granted (heard : List Parcel) (parcel : Parcel) (hmem : parcel ∈ heard) :
    parcel.acked.getD 0 + parcel.segment.feedback.window.toNat ≤ granted heard := by
  induction heard with
  | nil => exact absurd hmem List.not_mem_nil
  | cons first rest ih =>
      rw [granted, List.foldr_cons]
      rcases List.mem_cons.mp hmem with rfl | hrest
      · exact Nat.le_max_left _ _
      · exact Nat.le_trans (ih hrest) (Nat.le_max_right _ _)

-- The last window counts from an index that the same parcel acknowledges, or from before it.
theorem window_le_granted (heard : List Parcel) (base : Nat)
    (hrecent : ∀ last, heard.getLast? = some last → base ≤ last.acked.getD 0) :
    base + max (lastWindow heard).toNat 1 ≤ max (granted heard) (base + 1) := by
  cases hlast : heard.getLast? with
  | none =>
      rw [lastWindow, hlast]
      exact Nat.le_max_right _ _
  | some last =>
      have hacked := hrecent last hlast
      have hmost := le_granted heard last (List.mem_of_getLast? hlast)
      rw [lastWindow, hlast, Option.map_some, Option.getD_some]
      omega

-- A side that can still get on goes by the window that it heard of last.
def Host.Heeds (host : Host) (heard : List Parcel) : Prop :=
  host.connection.failed = false → host.connection.outbound.finished = false →
    host.connection.outbound.window = lastWindow heard

namespace Host

variable {host after : Host} {heard wire wireAfter : List Parcel} {came : Option Parcel}

theorem Heeds.proceed (hheeds : host.Heeds heard)
    (hcontinues : Connection.Continues host.connection after.connection)
    (hwindow : after.connection.outbound.window = host.connection.outbound.window) :
    after.Heeds heard := by
  intro hwhole hopen
  rw [hwindow]
  exact hheeds (hcontinues.whole hwhole) (hcontinues.outbound.unfinished hopen)

theorem Heeds.perform (hheeds : host.Heeds heard)
    (hsends : host.connection.outbound.Sends host.written) (call : Call) :
    (host.perform call).1.Heeds heard := by
  cases call with
  | send => exact hheeds.proceed host.connection.continues_send host.connection.window_send
  | elapse time =>
      exact hheeds.proceed (host.connection.continues_elapse hsends time)
        (host.connection.window_elapse time)
  | outgoing op hop => exact hheeds.proceed (host.connection.continues_outgoing op) rfl
  | incoming op hop => exact hheeds.proceed (host.connection.continues_incoming op hop) rfl

theorem heeds_receive (hsends : host.connection.outbound.Sends host.written) (parcel : Parcel)
    (hclear : host.reports parcel = []) : (host.receive parcel).1.Heeds (heard ++ [parcel]) := by
  intro hwhole hopen
  obtain ⟨hbefore, hunfinished⟩ :=
    host.connection.unfinished_of_receive hsends parcel.segment hwhole hopen
  have hactive := host.connection.active_of_unfinished hbefore hunfinished
    ((host.reports_eq_nil_iff parcel).mp hclear)
  rw [lastWindow, List.getLast?_concat]
  exact host.connection.window_receive parcel.segment hactive

theorem Heeds.happen (hheeds : host.Heeds heard)
    (hsends : host.connection.outbound.Sends host.written)
    (hhappens : Happens host wire came after wireAfter) : after.Heeds (heard ++ came.toList) := by
  cases hhappens with
  | idle fewer hfewer =>
      rw [Option.toList_none, List.append_nil]
      exact hheeds
  | perform call =>
      rw [Option.toList_none, List.append_nil]
      exact hheeds.perform hsends call
  | receive parcel hclear => exact heeds_receive hsends parcel hclear

-- When overflow cuts the call short, nothing happens at all.
theorem happens_of_reports {parcel : Parcel} (hcut : host.reports parcel ≠ [])
    (wire : List Parcel) :
    Happens host wire none (host.receive parcel).1 (wire ++ (host.receive parcel).2) := by
  have hinactive : host.connection.active ≠ .ok true := by
    intro hactive
    exact hcut ((host.reports_eq_nil_iff parcel).mpr
      (Connection.exists_active_iff.mp ⟨true, hactive⟩))
  rw [host.receive_of_inactive parcel hinactive, List.append_nil]
  exact .idle wire (List.Subset.refl wire)

theorem Happens.spares (hhappens : Happens host wire came after wireAfter)
    (hsends : host.connection.outbound.Sends host.written) :
    Connection.Spares host.connection after.connection := by
  cases hhappens with
  | idle fewer hfewer => exact .inl rfl
  | perform call =>
      cases call with
      | send => exact host.connection.spares_send hsends.inFlight_le
      | elapse time => exact host.connection.spares_elapse hsends time
      | outgoing op hop => exact .inl rfl
      | incoming op hop => exact .inl rfl
  | receive parcel hclear => exact host.connection.spares_receive hsends parcel.segment

theorem flight_of_emits {connection : Connection} {segments : List Segment}
    (hemits : connection.Emits segments) (parcel : Parcel)
    (hmem : parcel ∈ segments.map connection.stamp) (hspan : 0 < parcel.segment.chunk.span) :
    parcel.flight ∈ connection.outbound.flights := by
  obtain ⟨segment, hsegment, rfl⟩ := List.mem_map.mp hmem
  rcases hemits.chunk segment hsegment with hempty | hflight
  · exact absurd hempty (Nat.ne_of_gt hspan)
  · exact Linked.flight_stamp connection segment hflight

-- What takes up sequence numbers waits for its acknowledgment when it goes out.
theorem Happens.flight (hhappens : Happens host wire came after wireAfter) (parcel : Parcel)
    (hmem : parcel ∈ wireAfter) (hspan : 0 < parcel.segment.chunk.span) :
    parcel ∈ wire ∨ parcel.flight ∈ after.connection.outbound.flights := by
  cases hhappens with
  | idle fewer hfewer => exact .inl (hfewer hmem)
  | perform call =>
      refine (List.mem_append.mp hmem).imp_right fun hsent => ?_
      cases call with
      | send => exact flight_of_emits host.connection.emits_send parcel hsent hspan
      | elapse time => exact flight_of_emits (host.connection.emits_elapse time) parcel hsent hspan
      | outgoing op hop => exact absurd hsent List.not_mem_nil
      | incoming op hop => exact absurd hsent List.not_mem_nil
  | receive came hclear =>
      exact (List.mem_append.mp hmem).imp_right fun hsent =>
        flight_of_emits (host.connection.emits_receive came.segment) parcel hsent hspan

end Host

namespace Exchange

-- The parcel that a move brings to a side. When overflow cuts the call short, it is lost on it.
def arrival? (exchange : Exchange Host Parcel) (side : Side) : Move → Option Parcel
  | .deliver on index _ =>
      if on = side then
        (exchange.incoming side)[index]?.filter fun parcel =>
          ((exchange.party side).reports parcel).isEmpty
      else none
  | _ => none

-- All that come to a side in a run, the first one first.
def arrivals (exchange : Exchange Host Parcel) (side : Side) : List Move → List Parcel
  | [] => []
  | move :: rest =>
      match exchange.move? move with
      | none => []
      | some next => (exchange.arrival? side move).toList ++ next.arrivals side rest

def outgoing (exchange : Exchange Host Parcel) (side : Side) : List Parcel :=
  (exchange.turnTo side).nearWire

-- What a side has sent since `before` for the first time.
def fresh (before after : Exchange Host Parcel) (side : Side) : List Parcel :=
  (after.outgoing side).filter fun parcel =>
    decide (0 < parcel.segment.chunk.span) &&
      decide ((before.party side).connection.outbound.next ≤ parcel.start)

variable {exchange next : Exchange Host Parcel}

theorem happens_move (move : Move) (hmove : exchange.move? move = some next) (side : Side) :
    Host.Happens (exchange.party side) (exchange.outgoing side) (exchange.arrival? side move)
      (next.party side) (next.outgoing side) := by
  cases move with
  | call on call =>
      obtain rfl := Option.some.inj hmove
      cases on <;> cases side
      · exact .perform call
      · exact .idle _ (List.Subset.refl _)
      · exact .idle _ (List.Subset.refl _)
      · exact .perform call
  | deliver on index keep =>
      simp only [move?] at hmove
      split at hmove
      · cases hmove
      · rename_i parcel hparcel
        split at hmove
        · simp only [deliver, hparcel, Option.map_some, Option.some.injEq] at hmove
          by_cases hside : on = side
          · subst hside
            rw [← hmove]
            by_cases hclear : (exchange.party on).reports parcel = []
            · have hcame : exchange.arrival? on (.deliver on index keep) = some parcel := by
                rw [arrival?, if_pos rfl, hparcel, Option.filter_some, hclear]
                rfl
              rw [hcame]
              cases on <;> cases keep <;> exact .receive parcel hclear
            · have hcame : exchange.arrival? on (.deliver on index keep) = none := by
                rw [arrival?, if_pos rfl, hparcel, Option.filter_some,
                  List.isEmpty_eq_false_iff.mpr hclear]
                rfl
              have hcut := Host.happens_of_reports hclear (exchange.outgoing on)
              rw [hcame]
              cases on <;> cases keep <;> exact hcut
          · have hcame : exchange.arrival? side (.deliver on index keep) = none := if_neg hside
            rw [hcame, ← hmove]
            cases on <;> cases side
            · exact absurd rfl hside
            · cases keep
              · exact .idle _ (List.eraseIdx_subset)
              · exact .idle _ (List.Subset.refl _)
            · cases keep
              · exact .idle _ (List.eraseIdx_subset)
              · exact .idle _ (List.Subset.refl _)
            · exact absurd rfl hside
        · cases hmove
  | lose on index =>
      obtain rfl := Option.some.inj hmove
      cases on <;> cases side
      · exact .idle _ (List.Subset.refl _)
      · exact .idle _ List.eraseIdx_subset
      · exact .idle _ List.eraseIdx_subset
      · exact .idle _ (List.Subset.refl _)

theorem arrivals_concat (side : Side) (moves : List Move) (move : Move)
    (hrun : exchange.run? moves = some next) (hmove : (next.move? move).isSome) :
    exchange.arrivals side (moves ++ [move]) =
      exchange.arrivals side moves ++ (next.arrival? side move).toList := by
  induction moves generalizing exchange with
  | nil =>
      obtain rfl := Option.some.inj hrun
      obtain ⟨after, hafter⟩ := Option.isSome_iff_exists.mp hmove
      simp only [List.nil_append, arrivals, hafter, List.append_nil]
  | cons first rest ih =>
      simp only [run?] at hrun
      split at hrun
      · cases hrun
      · rename_i after hfirst
        simp only [List.cons_append, arrivals, hfirst, ih hrun, List.append_assoc]

theorem heeds_run {side : Side} (hlinked : exchange.Relates Linked side) {heard : List Parcel}
    (hheeds : (exchange.party side).Heeds heard) (moves : List Move)
    (hrun : exchange.run? moves = some next) :
    (next.party side).Heeds (heard ++ exchange.arrivals side moves) := by
  induction moves generalizing exchange heard with
  | nil =>
      obtain rfl := Option.some.inj hrun
      rw [arrivals, List.append_nil]
      exact hheeds
  | cons move rest ih =>
      simp only [run?] at hrun
      split at hrun
      · cases hrun
      · rename_i after hmove
        have hafter := ih (preserved_linked.move hlinked move hmove)
          (hheeds.happen hlinked.out.sends (happens_move move hmove side)) hrun
        rw [arrivals, hmove, ← List.append_assoc]
        exact hafter

theorem heeds_start (id peerId : Nat) (settings peerSettings : Settings) (side : Side) :
    (party (β := Parcel) (ofParties (Host.ofSettings id settings)
      (Host.ofSettings peerId peerSettings)) side).Heeds [] := by
  cases side <;> exact fun _ _ => rfl

theorem stop_le_window_of_fresh {side : Side} (hlinked : exchange.Relates Linked side)
    (move : Move) (hmove : exchange.move? move = some next) {heard : List Parcel}
    (hheeds : (next.party side).Heeds heard) (parcel : Parcel)
    (hfresh : parcel ∈ exchange.fresh next side) :
    parcel.flight.stop ≤
      (next.party side).connection.outbound.base + max (lastWindow heard).toNat 1 := by
  have hhappens := happens_move move hmove side
  obtain ⟨hmem, hnew⟩ := List.mem_filter.mp hfresh
  simp only [Bool.and_eq_true, decide_eq_true_eq] at hnew
  obtain ⟨hspan, hstart⟩ := hnew
  have hstop : parcel.flight.stop = parcel.start + parcel.segment.chunk.span := rfl
  have hflight : parcel.flight ∈ (next.party side).connection.outbound.flights := by
    rcases hhappens.flight parcel hmem hspan with hold | hwaits
    · -- what was on its way before is not new
      have hcarried : parcel.flight.stop ≤ (exchange.party side).connection.outbound.next :=
        (hlinked.out.carried parcel.flight (List.mem_map_of_mem hold) hspan).1
      omega
    · exact hwaits
  have hle : parcel.flight.stop ≤ (next.party side).connection.outbound.next :=
    ((preserved_linked.move hlinked move hmove).out.sends.tiles.mem parcel.flight hflight).2.2
  have hopen : (next.party side).connection.outbound.finished = false := by
    rw [Outbound.finished, List.isEmpty_eq_false_iff.mpr (List.ne_nil_of_mem hflight),
      Bool.and_false]
  rcases hhappens.spares hlinked.out.sends with hsame | ⟨hwhole, hspares⟩
  · omega
  · rw [← hheeds hwhole hopen]
    exact Nat.le_trans hle hspares

-- What is sent for the first time ends within the window that the last segment reported,
-- counted from the first number without acknowledgment. So it also ends within the most that
-- any segment has left room for, or is a single number that asks for more, unless that last
-- segment is an old one that came late: it acknowledges less than others before it.
theorem sends_within_last_window (id peerId : Nat) (settings peerSettings : Settings)
    (moves : List Move) (move : Move) (before after : Exchange Host Parcel)
    (hrun : (ofParties (Host.ofSettings id settings)
      (Host.ofSettings peerId peerSettings)).run? moves = some before)
    (hmove : before.move? move = some after) (side : Side) (parcel : Parcel)
    (hfresh : parcel ∈ before.fresh after side) :
    let heard := (ofParties (Host.ofSettings id settings)
      (Host.ofSettings peerId peerSettings)).arrivals side (moves ++ [move])
    let base := (after.party side).connection.outbound.base
    parcel.flight.stop ≤ base + max (lastWindow heard).toNat 1 ∧
      ((∀ last, heard.getLast? = some last → base ≤ last.acked.getD 0) →
        parcel.flight.stop ≤ max (granted heard) (base + 1)) := by
  intro heard base
  have hstart : (ofParties (Host.ofSettings id settings)
      (Host.ofSettings peerId peerSettings)).Relates Linked .near :=
    Linked.start id peerId settings peerSettings
  have hbefore := preserved_linked.relates (preserved_linked.run hstart moves hrun) side
  have hheeds : (after.party side).Heeds heard := by
    have hrest := heeds_run (preserved_linked.relates hstart side)
      (heeds_start id peerId settings peerSettings side) moves hrun
    have hlast := hrest.happen hbefore.out.sends (happens_move move hmove side)
    rw [List.nil_append, ← arrivals_concat side moves move hrun (Option.isSome_of_eq_some hmove)]
      at hlast
    exact hlast
  have hwindow := stop_le_window_of_fresh hbefore move hmove hheeds parcel hfresh
  exact ⟨hwindow, fun hrecent => Nat.le_trans hwindow (window_le_granted heard base hrecent)⟩

-- Five bytes for a peer with room for ten. Its first answer comes, and they go out.
def narrow : Settings := { Settings.standard with capacity := 10 }

def toNarrow : Exchange Host Parcel :=
  ofParties (Host.ofSettings 1 Settings.standard) (Host.ofSettings 2 narrow)

def openingMoves : List Move :=
  [.call .near (.outgoing (.push [1, 2, 3, 4, 5]) (.refl false)), .call .near .send,
    .deliver .far 0 false]

def answerMove : Move := .deliver .near 0 true

theorem sends_within_last_window_opening :
    ∃ before after parcel, toNarrow.run? openingMoves = some before ∧
      before.move? answerMove = some after ∧ parcel ∈ before.fresh after .near ∧
      parcel.flight.stop = 6 ∧
      parcel.flight.stop ≤ max (granted (toNarrow.arrivals .near (openingMoves ++ [answerMove])))
        ((after.party .near).connection.outbound.base + 1) := by
  have hopening : (toNarrow.run? openingMoves).bind (fun before =>
      (before.move? answerMove).map fun after =>
        ((before.fresh after .near).map fun parcel => parcel.flight.stop,
          (toNarrow.arrivals .near (openingMoves ++ [answerMove])).getLast?.map Parcel.acked,
          (after.party .near).connection.outbound.base)) =
      some ([6], some (some 1), 1) := by cbv
  obtain ⟨before, hrun, hrest⟩ := Option.bind_eq_some_iff.mp hopening
  obtain ⟨after, hmove, hresult⟩ := Option.map_eq_some_iff.mp hrest
  simp only [Prod.mk.injEq] at hresult
  obtain ⟨hfresh, hlast, hbase⟩ := hresult
  obtain ⟨parcel, hmem, hstop⟩ := List.exists_of_mem_map (hfresh ▸ List.mem_singleton_self 6)
  have hwithin := sends_within_last_window 1 2 Settings.standard narrow openingMoves answerMove
    before after hrun hmove .near parcel hmem
  refine ⟨before, after, parcel, hrun, hmove, hmem, hstop, hwithin.2 fun last hsome => ?_⟩
  have hsome : (toNarrow.arrivals .near (openingMoves ++ [answerMove])).getLast? = some last :=
    hsome
  rw [hsome, Option.map_some] at hlast
  rw [hbase, Option.some.inj hlast]
  exact Nat.le_refl 1

-- The same answer comes again after a later one, which has acknowledged the five bytes and
-- left room for five more. It brings the old window back, and ten bytes go out at once.
def staleMoves : List Move :=
  openingMoves ++ [answerMove, .deliver .far 0 false, .deliver .near 1 false,
    .deliver .near 0 false,
    .call .near (.outgoing (.push [1, 2, 3, 4, 5, 6, 7, 8, 9, 10]) (.refl false))]

theorem overruns_after_stale :
    ∃ before after parcel, toNarrow.run? staleMoves = some before ∧
      before.move? (.call .near .send) = some after ∧ parcel ∈ before.fresh after .near ∧
      max (granted (toNarrow.arrivals .near (staleMoves ++ [.call .near .send])))
        ((after.party .near).connection.outbound.base + 1) < parcel.flight.stop := by
  have hstale : (toNarrow.run? staleMoves).bind (fun before =>
      (before.move? (.call .near .send)).map fun after =>
        ((before.fresh after .near).map fun parcel => parcel.flight.stop,
          granted (toNarrow.arrivals .near (staleMoves ++ [.call .near .send])),
          (after.party .near).connection.outbound.base)) =
      some ([16], 11, 6) := by cbv
  obtain ⟨before, hrun, hrest⟩ := Option.bind_eq_some_iff.mp hstale
  obtain ⟨after, hmove, hresult⟩ := Option.map_eq_some_iff.mp hrest
  simp only [Prod.mk.injEq] at hresult
  obtain ⟨hfresh, hgranted, hbase⟩ := hresult
  obtain ⟨parcel, hmem, hstop⟩ := List.exists_of_mem_map (hfresh ▸ List.mem_singleton_self 16)
  refine ⟨before, after, parcel, hrun, hmove, hmem, ?_⟩
  rw [hgranted, hbase, hstop]
  decide

end Exchange

end UserTcp
