import UserTcp.Proofs.Connection.History

namespace UserTcp.Connection

variable {connection : Connection}

theorem not_active_of_failed (hfailed : connection.failed = true) :
    connection.active ≠ .ok true := by
  intro hactive
  rw [failed_of_active hactive] at hfailed
  cases hfailed

theorem active_of_failed (hfailed : connection.failed = true)
    (hfits : connection.DeadlineFits) : connection.active = .ok false := by
  obtain ⟨active, hactive⟩ := exists_active_iff.mpr hfits
  cases active with
  | false => exact hactive
  | true => exact absurd hactive (not_active_of_failed hfailed)

-- A broken connection is silent, a broken stream stays broken, and the end of the lingering, which
-- does not come any more, stays where it is.
theorem step_of_failed (hfailed : connection.failed = true) (event : Event) :
    (connection.step event).2 = [] ∧
      (connection.outbound.input.failed = true →
        (connection.step event).1.outbound.input.failed = true) ∧
      (connection.inbound.stream.failed = true →
        (connection.step event).1.inbound.stream.failed = true) ∧
      (connection.DeadlineFits → (connection.step event).1.DeadlineFits) := by
  have happly : ∀ (pipe : Pipe) (op : Pipe.Op), pipe.failed = true →
      (pipe.apply op).2.failed = true := by
    intro pipe op hbroken
    by_contra hwhole
    rw [pipe.failed_of_failed_apply op (eq_false_of_ne_true hwhole)] at hbroken
    cases hbroken
  have hsame : ∀ {kept : Connection × List Segment}, kept = (connection, []) → kept.2 = [] ∧
      (connection.outbound.input.failed = true → kept.1.outbound.input.failed = true) ∧
      (connection.inbound.stream.failed = true → kept.1.inbound.stream.failed = true) ∧
      (connection.DeadlineFits → kept.1.DeadlineFits) := by
    rintro _ rfl
    exact ⟨rfl, fun hbroken => hbroken, fun hbroken => hbroken, fun hfits => hfits⟩
  have hinactive := not_active_of_failed hfailed
  cases event with
  | send => exact hsame (if_pos hfailed)
  | receive segment => exact hsame (receive_of_inactive segment hinactive)
  | elapse time => exact hsame (elapse_of_not_ticks fun hticks => hinactive hticks.active)
  | outgoing op hop =>
      exact ⟨rfl, happly connection.outbound.input op, fun hbroken => hbroken, fun hfits => hfits⟩
  | incoming op hop =>
      exact ⟨rfl, fun hbroken => hbroken, happly connection.inbound.stream op, fun hfits => hfits⟩

theorem clean_send (hunbroken : connection.outbound.Unbroken) :
    ∀ segment ∈ connection.send.2, segment.rst = false := by
  cases hfailed : connection.failed with
  | true =>
      rw [send, if_pos hfailed]
      exact fun _ hmem => absurd hmem List.not_mem_nil
  | false => exact fun segment hmem => (speaks_send hfailed hunbroken segment hmem).2

-- The connection gives up: the chunk that is due goes out once more, and behind it the reset,
-- with which both streams break.
structure Surrenders (connection : Connection) (time : Millis) (again reset : Segment) : Prop where
  ticks : connection.Ticks time
  due : (connection.outbound.alarm.advance time).due = true
  sent_eq : (connection.elapse time).2 = [again, reset]
  oldest : connection.outbound.flights.head?.map Flight.chunk = some again.chunk
  again_clean : again.rst = false
  reset_rst : reset.rst = true
  outgoing_failed : (connection.elapse time).1.outbound.input.failed = true
  incoming_failed : (connection.elapse time).1.inbound.stream.failed = true
  deadlineFits : (connection.elapse time).1.DeadlineFits
  count_eq : (connection.elapse time).1.outbound.retransmissions =
    connection.settings.retransmissionLimit + 1

def Patient (connection : Connection) : Prop :=
  connection.failed = false →
    connection.outbound.retransmissions ≤ connection.settings.retransmissionLimit

theorem elapse_clean_or_surrenders (hunbroken : connection.outbound.Unbroken)
    (hpatient : connection.Patient) (time : Millis) :
    (∀ segment ∈ (connection.elapse time).2, segment.rst = false) ∧
        (connection.failed = false → (connection.elapse time).1.outbound.retransmissions ≤
          connection.settings.retransmissionLimit) ∨
      ∃ again reset, connection.Surrenders time again reset := by
  by_cases hticks : connection.Ticks time
  · have hwhole := failed_of_active hticks.active
    have hlimit := hpatient hwhole
    rcases connection.outbound.elapse_cases time with
      ⟨hnone, hcount⟩ | ⟨oldest, hhead, hsome, hcount⟩
    · have hstill := hcount.symm ▸ hlimit
      rw [connection.elapse_of_patient time hticks hstill, hnone]
      exact .inl ⟨fun _ hmem => absurd hmem List.not_mem_nil, fun _ => hstill⟩
    · have hspeaks := connection.speaks_elapsing time hwhole hunbroken [oldest] fun flight hmem =>
        List.mem_singleton.mp hmem ▸ List.mem_of_head? hhead
      by_cases hmore : connection.outbound.retransmissions + 1 ≤
          connection.settings.retransmissionLimit
      · rw [connection.elapse_of_patient time hticks (hcount ▸ hmore), hsome]
        exact .inl ⟨fun segment hmem => (hspeaks segment hmem).2, fun _ => hcount.symm ▸ hmore⟩
      · right
        have helapse := elapse_of_spent time hticks (hcount.symm ▸ Nat.lt_of_not_le hmore)
        have hclean := (hspeaks _ (List.mem_singleton_self _)).2
        rw [hsome] at helapse
        refine ⟨_, _, hticks, Outbound.due_of_elapse hsome, congrArg Prod.snd helapse,
          by rw [hhead]; rfl, hclean, rfl, by rw [helapse]; rfl, by rw [helapse]; rfl, ?_, ?_⟩
        · have hfits : connection.DeadlineFits := exists_active_iff.mp ⟨true, hticks.active⟩
          rw [helapse]
          exact hfits
        · rw [helapse]
          change (connection.outbound.elapse time).1.retransmissions = _
          omega
  · rw [elapse_of_not_ticks hticks]
    exact .inl ⟨fun _ hmem => absurd hmem List.not_mem_nil, hpatient⟩

theorem whole_of_step (event : Event) (hwhole : (connection.step event).1.failed = false) :
    connection.failed = false := by
  by_contra hfailed
  obtain ⟨-, houtgoing, hincoming, -⟩ := step_of_failed (eq_true_of_ne_false hfailed) event
  obtain ⟨houtbound, hinbound⟩ := (failed_eq_false _).mp hwhole
  refine hfailed ((failed_eq_false connection).mpr ⟨?_, ?_⟩)
  · exact eq_false_of_ne_true fun hbroken => by rw [houtgoing hbroken] at houtbound; cases houtbound
  · exact eq_false_of_ne_true fun hbroken => by rw [hincoming hbroken] at hinbound; cases hinbound

theorem Patient.step (hpatient : connection.Patient) (hbalanced : connection.outbound.Balanced)
    (event : Event) (hquiet : repeated event (connection.step event).2 = 0)
    (hwhole : connection.failed = false) :
    (connection.step event).1.outbound.retransmissions ≤
      connection.settings.retransmissionLimit := by
  have hlimit := hpatient hwhole
  have hcounts := counts_step hbalanced event
  unfold Counts at hcounts
  omega

theorem retransmissions_of_ticks {time : Millis} (hticks : connection.Ticks time) :
    (connection.elapse time).1.outbound.retransmissions =
      (connection.outbound.elapse time).1.retransmissions := by
  rw [elapse_of_ticks hticks, wait]
  split <;> rfl

-- Only when the connection gives up does a segment reset anything.
theorem step_clean_or_surrenders (hbalanced : connection.outbound.Balanced)
    (hunbroken : connection.outbound.Unbroken) (hpatient : connection.Patient) (event : Event) :
    (∀ segment ∈ (connection.step event).2, segment.rst = false) ∧
        (connection.failed = false → (connection.step event).1.outbound.retransmissions ≤
          connection.settings.retransmissionLimit) ∨
      ∃ time again reset, event = .elapse time ∧ connection.Surrenders time again reset := by
  have hnone : ∀ segment ∈ ([] : List Segment), segment.rst = false := fun _ hmem =>
    absurd hmem List.not_mem_nil
  cases event with
  | send => exact .inl ⟨clean_send hunbroken, hpatient.step hbalanced .send rfl⟩
  | receive segment =>
      refine .inl ⟨?_, hpatient.step hbalanced (.receive segment) rfl⟩
      rcases connection.receive_cases segment with hsame | hbroken | hanswered
      · rw [step, hsame]
        exact hnone
      · rw [step, hbroken]
        exact hnone
      · rw [step, hanswered]
        refine clean_send ?_
        rw [outbound_noteClose]
        exact Outbound.unbroken_after hbalanced hunbroken (.receive segment.feedback)
  | elapse time =>
      rcases elapse_clean_or_surrenders hunbroken hpatient time with hclean | ⟨again, reset, hends⟩
      · exact .inl hclean
      · exact .inr ⟨time, again, reset, rfl, hends⟩
  | outgoing op hop => exact .inl ⟨hnone, hpatient.step hbalanced (.outgoing op hop) rfl⟩
  | incoming op hop => exact .inl ⟨hnone, hpatient.step hbalanced (.incoming op hop) rfl⟩

-- Nothing that was sent resets anything, or only what was sent last, and then both streams are
-- broken.
def Parting (connection : Connection) (sent : List Segment) : Prop :=
  (∀ segment ∈ sent, segment.rst = false) ∨
    connection.outbound.input.failed = true ∧ connection.inbound.stream.failed = true ∧
      connection.DeadlineFits ∧ ∃ front reset, sent = front ++ [reset] ∧ reset.rst = true ∧
        ∀ segment ∈ front, segment.rst = false

-- Where only the last segment can be a reset, nothing follows a reset.
theorem last_of_clean {front back before : List Segment} {segment last : Segment}
    (hends : front ++ segment :: back = before ++ [last])
    (hclean : ∀ earlier ∈ before, earlier.rst = false) (hrst : segment.rst = true) :
    back = [] ∧ front = before := by
  rcases List.eq_nil_or_concat back with rfl | ⟨middle, final, rfl⟩
  · exact ⟨rfl, (List.append_inj' hends rfl).1⟩
  · rw [List.concat_eq_append, ← List.cons_append, ← List.append_assoc] at hends
    have hmem : segment ∈ before :=
      (List.append_inj' hends rfl).1 ▸ List.mem_append_right _ List.mem_cons_self
    rw [hclean segment hmem] at hrst
    cases hrst

-- What holds all through the life of a connection that may send a chunk again `limit` times.
structure Persevering (limit : Nat) (history : History) : Prop where
  limit_eq : history.connection.settings.retransmissionLimit = limit
  balanced : history.connection.outbound.Balanced
  unbroken : history.connection.outbound.Unbroken
  patient : history.connection.Patient
  repeats_eq : history.connection.outbound.retransmissions = history.repeats
  parting : Parting history.connection history.sent

namespace Persevering

variable {limit : Nat} {history : History}

theorem start (id : Nat) (settings : Settings) :
    Persevering settings.retransmissionLimit (History.ofSettings id settings) where
  limit_eq := rfl
  balanced := Outbound.balanced_ofInput _ _ _ _
  unbroken := fun _ _ hmem => absurd hmem List.not_mem_nil
  patient := fun _ => Nat.zero_le _
  repeats_eq := rfl
  parting := .inl fun _ hmem => absurd hmem List.not_mem_nil

theorem repeats_after (hpersevering : Persevering limit history) (event : Event) :
    (history.connection.step event).1.outbound.retransmissions = (history.after event).repeats := by
  have hrepeats := hpersevering.repeats_eq
  rcases counts_step hpersevering.balanced event with ⟨hbase, hcount⟩ | ⟨hbase, hcount⟩
  · rw [History.after, hcount, hrepeats, hbase, if_neg (Nat.lt_irrefl _)]
  · rw [History.after, hcount, if_pos hbase]

theorem parting_after (hpersevering : Persevering limit history) (event : Event) :
    Parting (history.after event).connection (history.after event).sent := by
  rcases hpersevering.parting with hclean | ⟨houtgoing, hincoming, hfits, hlast⟩
  · rcases step_clean_or_surrenders hpersevering.balanced hpersevering.unbroken
      hpersevering.patient event with ⟨hmore, -⟩ | ⟨time, again, reset, rfl, hends⟩
    · exact .inl fun segment hmem => (List.mem_append.mp hmem).elim (hclean segment) (hmore segment)
    · refine .inr ⟨hends.outgoing_failed, hends.incoming_failed, hends.deadlineFits,
        history.sent ++ [again], reset, ?_, hends.reset_rst, ?_⟩
      · rw [List.append_assoc]
        exact congrArg (history.sent ++ ·) hends.sent_eq
      · intro segment hmem
        rcases List.mem_append.mp hmem with hmem | hmem
        · exact hclean segment hmem
        · rw [List.mem_singleton.mp hmem]
          exact hends.again_clean
  · -- a broken connection adds nothing to what it has sent
    have hfailed : history.connection.failed = true := by
      rw [failed, houtgoing]
      rfl
    obtain ⟨hsilent, hout, hin, hkeeps⟩ := step_of_failed hfailed event
    have hsame : (history.after event).sent = history.sent := by
      rw [History.after, hsilent, List.append_nil]
    exact .inr ⟨hout houtgoing, hin hincoming, hkeeps hfits, hsame ▸ hlast⟩

protected theorem after (hpersevering : Persevering limit history) (event : Event) :
    Persevering limit (history.after event) where
  limit_eq := (congrArg Settings.retransmissionLimit
    (history.connection.settings_step event)).trans hpersevering.limit_eq
  balanced := history.connection.outbound_step_keeps Outbound.Balanced
    (fun _ event hbefore => Outbound.balanced_after hbefore event) event hpersevering.balanced
  unbroken := (history.connection.outbound_step_keeps
    (fun outbound => outbound.Balanced ∧ outbound.Unbroken)
    (fun _ event hbefore => ⟨Outbound.balanced_after hbefore.1 event,
      Outbound.unbroken_after hbefore.1 hbefore.2 event⟩) event
    ⟨hpersevering.balanced, hpersevering.unbroken⟩).2
  patient := by
    intro hwhole
    have hbefore := whole_of_step event hwhole
    rcases step_clean_or_surrenders hpersevering.balanced hpersevering.unbroken
      hpersevering.patient event with ⟨-, hlimit⟩ | ⟨time, again, reset, rfl, hends⟩
    · exact (congrArg Settings.retransmissionLimit
        (history.connection.settings_step event)).symm ▸ hlimit hbefore
    · have hbroken : (history.after (.elapse time)).connection.outbound.input.failed = true :=
        hends.outgoing_failed
      rw [((failed_eq_false _).mp hwhole).1] at hbroken
      cases hbroken
  repeats_eq := hpersevering.repeats_after event
  parting := hpersevering.parting_after event

protected theorem afterAll (hpersevering : Persevering limit history) (events : List Event) :
    Persevering limit (history.afterAll events) :=
  List.foldlRecOn events History.after hpersevering fun _ hbefore event _ => hbefore.after event

-- The connection gives up when a chunk goes out once more than it may.
theorem resets_iff (hpersevering : Persevering limit history) (event : Event) :
    (∃ segment ∈ (history.connection.step event).2, segment.rst = true) ↔
      history.connection.failed = false ∧ (history.after event).repeats = limit + 1 := by
  have hlimit := hpersevering.limit_eq
  rcases step_clean_or_surrenders hpersevering.balanced hpersevering.unbroken
    hpersevering.patient event with ⟨hclean, hbears⟩ | ⟨time, again, reset, rfl, hends⟩
  · constructor
    · rintro ⟨segment, hmem, hrst⟩
      rw [hclean segment hmem] at hrst
      cases hrst
    · rintro ⟨hwhole, hspent⟩
      have hcount := hpersevering.repeats_after event
      have hle := hbears hwhole
      omega
  · have hcount := hpersevering.repeats_after (.elapse time)
    refine ⟨fun _ => ⟨failed_of_active hends.ticks.active, ?_⟩,
      fun _ => ⟨reset, ?_, hends.reset_rst⟩⟩
    · rw [← hcount, ← hlimit]
      exact hends.count_eq
    · rw [step, hends.sent_eq]
      exact List.mem_cons_of_mem _ (List.mem_singleton_self _)

-- So it does when it is active, the alarm is due and the chunk has gone out as often as it may.
theorem gives_up_iff (hpersevering : Persevering limit history) (time : Millis) :
    (∃ segment ∈ (history.connection.elapse time).2, segment.rst = true) ↔
      history.connection.Ticks time ∧
        (history.connection.outbound.alarm.advance time).due = true ∧
        history.connection.outbound.retransmissions = limit := by
  have hlimit := hpersevering.limit_eq
  have hcount : history.connection.Ticks time →
      (history.connection.outbound.alarm.advance time).due = true →
        (history.connection.elapse time).1.outbound.retransmissions =
          history.connection.outbound.retransmissions + 1 := fun hticks hdue =>
    (retransmissions_of_ticks hticks).trans
      (hpersevering.balanced.toAlert.retransmissions_of_due hdue)
  constructor
  · rintro ⟨segment, hmem, hrst⟩
    rcases elapse_clean_or_surrenders hpersevering.unbroken hpersevering.patient time with
      ⟨hclean, -⟩ | ⟨again, reset, hends⟩
    · rw [hclean segment hmem] at hrst
      cases hrst
    · have hspent := hends.count_eq
      have hmore := hcount hends.ticks hends.due
      exact ⟨hends.ticks, hends.due, by omega⟩
  · rintro ⟨hticks, hdue, hfull⟩
    refine (hpersevering.resets_iff (.elapse time)).mpr ⟨failed_of_active hticks.active, ?_⟩
    rw [← hpersevering.repeats_after (.elapse time), step, hcount hticks hdue, hfull]

-- The reset comes right behind the chunk that is given up.
theorem resets_behind (hpersevering : Persevering limit history) (event : Event)
    (segment : Segment) (hmem : segment ∈ (history.connection.step event).2)
    (hrst : segment.rst = true) :
    ∃ time again, event = .elapse time ∧ (history.connection.step event).2 = [again, segment] ∧
      history.connection.outbound.flights.head?.map Flight.chunk = some again.chunk := by
  rcases step_clean_or_surrenders hpersevering.balanced hpersevering.unbroken
    hpersevering.patient event with ⟨hclean, -⟩ | ⟨time, again, reset, rfl, hends⟩
  · rw [hclean segment hmem] at hrst
    cases hrst
  · have hsent : (history.connection.step (.elapse time)).2 = [again, reset] := hends.sent_eq
    rw [hsent, List.mem_cons, List.mem_singleton] at hmem
    rcases hmem with rfl | rfl
    · rw [hends.again_clean] at hrst
      cases hrst
    · exact ⟨time, again, rfl, hsent, hends.oldest⟩

-- Nothing follows it, and the connection is over.
theorem ends_with_reset (hpersevering : Persevering limit history) {front back : List Segment}
    {segment : Segment} (hsent : history.sent = front ++ segment :: back)
    (hrst : segment.rst = true) :
    back = [] ∧ (∀ earlier ∈ front, earlier.rst = false) ∧
      history.connection.outbound.input.failed = true ∧
      history.connection.inbound.stream.failed = true ∧
      history.connection.active = .ok false := by
  rcases hpersevering.parting with
    hclean | ⟨houtgoing, hincoming, hfits, before, reset, hlast, -, hclean⟩
  · rw [hclean segment (hsent ▸ List.mem_append_right _ List.mem_cons_self)] at hrst
    cases hrst
  · obtain ⟨rfl, rfl⟩ := last_of_clean (hsent.symm.trans hlast) hclean hrst
    refine ⟨rfl, hclean, houtgoing, hincoming, active_of_failed ?_ hfits⟩
    rw [failed, houtgoing]
    rfl

end Persevering

-- A connection that is not broken has sent no chunk more often than it may. It resets the peer
-- exactly when the chunk that is due goes out once more than that since something new was
-- acknowledged, right behind this chunk, and so it does as soon as it is active and a chunk that
-- has gone out as often as it may is due. The reset is the last segment that it ever sends.
theorem gives_up_once (id : Nat) (settings : Settings) (events : List Event) :
    let history := (History.ofSettings id settings).afterAll events
    let connection := history.connection
    let limit := settings.retransmissionLimit
    (connection.failed = false → connection.outbound.retransmissions ≤ limit) ∧
      connection.outbound.retransmissions = history.repeats ∧
      (∀ event, (∃ segment ∈ (connection.step event).2, segment.rst = true) ↔
        connection.failed = false ∧ (history.after event).repeats = limit + 1) ∧
      (∀ time, (∃ segment ∈ (connection.elapse time).2, segment.rst = true) ↔
        connection.Ticks time ∧ (connection.outbound.alarm.advance time).due = true ∧
          connection.outbound.retransmissions = limit) ∧
      (∀ event, ∀ segment ∈ (connection.step event).2, segment.rst = true →
        ∃ time again, event = .elapse time ∧ (connection.step event).2 = [again, segment] ∧
          connection.outbound.flights.head?.map Flight.chunk = some again.chunk) ∧
      ∀ front segment back, history.sent = front ++ segment :: back → segment.rst = true →
        back = [] ∧ (∀ earlier ∈ front, earlier.rst = false) ∧
          connection.outbound.input.failed = true ∧ connection.inbound.stream.failed = true ∧
          connection.active = .ok false := by
  intro history connection limit
  have hpersevering : Persevering limit history := (Persevering.start id settings).afterAll events
  refine ⟨fun hwhole => ?_, hpersevering.repeats_eq, hpersevering.resets_iff,
    hpersevering.gives_up_iff, hpersevering.resets_behind,
    fun _ _ _ hsent hrst => hpersevering.ends_with_reset hsent hrst⟩
  exact hpersevering.limit_eq ▸ hpersevering.patient hwhole

-- Nobody answers the SYN. It may go out twice more, and goes out a third time with the reset.
example : ((History.ofSettings 1 { Settings.standard with
      timeout := 10, retransmissionLimit := 2, timeout_pos := by decide }).afterAll
    (.send :: List.replicate 10 (.elapse 1000))).sent.map (fun segment =>
      (segment.chunk.syn, segment.rst)) =
    [(true, false), (true, false), (true, false), (true, false), (false, true)] := by cbv

end UserTcp.Connection
