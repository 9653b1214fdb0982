import UserTcp.Proofs.Connection.Unheard

namespace UserTcp

theorem Reassembly.insert_of_nil (reassembly : Reassembly) (index : Nat)
    (hunknown : reassembly.finalIndex = none) :
    reassembly.insert ⟨index, []⟩ false = reassembly := by
  have haccept : reassembly.accept ⟨index, []⟩ = reassembly := by
    rw [accept, if_pos]
    simp only [clip, List.drop_nil, List.take_nil]
  have hclose : reassembly.closeAtFinal = reassembly := by
    rw [closeAtFinal, hunknown, if_neg (Option.some_ne_none _).symm]
  unfold insert
  split
  · rw [noteFinal, Bool.false_and, if_neg Bool.false_ne_true, haccept, hclose]
  · rfl

-- The chunk that opens a stream.
def SeqNo.opening (initial : SeqNo) : Chunk :=
  ⟨SeqNo.ofIndex 0 initial, true, [], false, false⟩

-- A SYN alone tells where the sequence numbers start and nothing else.
theorem Inbound.receive_opening (inbound : Inbound) (initial : SeqNo)
    (hunlearned : inbound.initial = none) (hunknown : inbound.reassembly.finalIndex = none) :
    inbound.receive initial.opening =
      { inbound with initial := some (SeqNo.ofIndex 0 initial) } := by
  simp only [receive, SeqNo.opening, Bool.false_eq_true, ↓reduceIte, hunlearned]
  unfold place
  split
  · rfl
  · simp only [inbound.reassembly.insert_of_nil _ hunknown]

namespace Outbound

variable {input : Pipe} {initial : SeqNo} {timeout : Millis} {limit : Nat}

-- A sender that has sent its SYN and nothing else.
def opened (input : Pipe) (initial : SeqNo) (timeout : Millis) (limit : Nat) : Outbound :=
  (ofInput input initial timeout limit).launch initial.opening input

-- There is no room for the stream next to the SYN.
theorem send_ofInput (hwhole : input.failed = false) :
    (ofInput input initial timeout limit).send =
      (opened input initial timeout limit, [initial.opening]) := by
  have hcut : (ofInput input initial timeout limit).cut 1 = (initial.opening, input) := by
    have htaking : (ofInput input initial timeout limit).taking 1 = 0 := by
      simp only [taking, ofInput, Bool.not_false, Bool.toNat_true, Nat.sub_zero, Nat.sub_self,
        Nat.zero_min]
    rw [cut_eq, htaking, List.take_zero]
    simp only [ofInput, Pipe.pop_zero, emptyChunk, hwhole, Bool.not_false, SeqNo.opening,
      Bool.toNat_true, Nat.sub_zero, Nat.sub_self, List.length_nil, Nat.lt_irrefl, decide_false,
      Bool.and_false]
  have hwindow : (ofInput input initial timeout limit).usableWindow = 1 := rfl
  have hfull : ¬ ((opened input initial timeout limit).inFlight < 1 ∧
      (opened input initial timeout limit).finSent = false) := fun hroom =>
    absurd hroom.1 (Nat.lt_irrefl 1)
  have hspan : 0 < ((ofInput input initial timeout limit).cut 1).1.span := by
    rw [hcut]
    exact Nat.zero_lt_one
  rw [send, hwindow, fill, if_pos ⟨Nat.zero_lt_one, rfl⟩, if_pos hspan, hcut]
  change (((opened input initial timeout limit).fill 1).1,
    initial.opening :: ((opened input initial timeout limit).fill 1).2) = _
  rw [fill, if_neg hfull]

-- The acknowledgment of the SYN leaves nothing in flight.
theorem receive_opened (input : Pipe) (initial : SeqNo) (timeout : Millis) (limit : Nat)
    (feedback : Feedback) (hrst : feedback.rst = false)
    (hackno : feedback.ackno = some (SeqNo.ofIndex 1 initial)) :
    let after := (opened input initial timeout limit).receive feedback
    after.input = input ∧ after.payloadLimit = limit ∧ after.window = feedback.window ∧
      after.synSent = true ∧ after.finSent = false ∧ after.inFlight = 0 := by
  have hnext : (opened input initial timeout limit).next = 1 := rfl
  rw [receive_of_ackno _ feedback 1 hrst hackno (Nat.le_refl 1) (by rw [hnext]; decide)
    (by rw [hnext]; decide)]
  exact ⟨rfl, rfl, rfl, rfl, rfl, rfl⟩

-- What fits goes out as one chunk.
theorem send_whole {outbound : Outbound} (hsyn : outbound.synSent = true)
    (hfin : outbound.finSent = false) (hnone : outbound.inFlight = 0)
    (hsome : outbound.input.buffer ≠ [])
    (hlimit : outbound.input.buffer.length ≤ outbound.payloadLimit)
    (hwindow : outbound.input.buffer.length ≤ outbound.window.toNat) :
    ∃ chunk rest, outbound.send.2 = chunk :: rest ∧ chunk.payload = outbound.input.buffer := by
  have husable : outbound.input.buffer.length ≤ outbound.usableWindow :=
    Nat.le_trans hwindow (Nat.le_max_left _ 1)
  have hroom : outbound.inFlight < outbound.usableWindow := by
    have hpos := List.length_pos_iff.mpr hsome
    omega
  have htaking : outbound.taking outbound.usableWindow = outbound.input.buffer.length := by
    rw [taking, hnone, hsyn]
    simp only [Bool.not_true, Bool.toNat_false, Nat.sub_zero, Pipe.buffered]
    omega
  have hpayload : (outbound.cut outbound.usableWindow).1.payload = outbound.input.buffer := by
    rw [cut_eq, htaking, List.take_length]
  have hspan : 0 < (outbound.cut outbound.usableWindow).1.span := by
    have hpos := List.length_pos_iff.mpr hsome
    rw [Chunk.span, hpayload]
    omega
  rw [send, fill, if_pos ⟨hroom, hfin⟩, if_pos hspan]
  exact ⟨_, _, rfl, hpayload⟩

end Outbound

namespace Connection

-- Nothing that a side with some room sends, before it has heard anything, breaks a connection.
theorem breaks_segment {connection : Connection} {capacity : Nat}
    (hfresh : connection.inbound = Inbound.ofCapacity capacity) (hpos : 0 < capacity)
    {chunk : Chunk} (hrst : chunk.rst = false) : (connection.segment chunk).breaks = false := by
  have hopen : UInt16.ofNat (min capacity 65535) ≠ 0 := by
    rw [ne_eq, ← UInt16.toNat_inj, UInt16.toNat_ofNat', UInt16.toNat_zero]
    omega
  have hfeedback : (connection.segment chunk).feedback =
      ⟨none, UInt16.ofNat (min capacity 65535), false⟩ := by
    rw [segment, hfresh]
    rfl
  rw [Segment.breaks, Segment.rst, hfeedback, decide_eq_false hopen]
  exact (Bool.or_false _).trans ((Bool.or_false _).trans hrst)

-- A connection whose application has written something before all else.
def loaded (id : Nat) (settings : Settings) (bytes : List UInt8) : Connection :=
  (ofSettings id settings).mapOutgoing fun pipe => pipe.push bytes

variable (id : Nat) (settings : Settings) (bytes : List UInt8)

theorem outbound_sending_loaded :
    (loaded id settings bytes).sending.outbound =
      Outbound.opened ((Pipe.empty settings.capacity).push bytes) settings.initial settings.timeout
        settings.payloadLimit :=
  congrArg Prod.fst (Outbound.send_ofInput rfl)

theorem send_loaded :
    (loaded id settings bytes).send =
      ((loaded id settings bytes).sending,
        [(loaded id settings bytes).sending.segment settings.initial.opening]) := by
  have hfresh : (loaded id settings bytes).outbound.send.2 = [settings.initial.opening] :=
    congrArg Prod.snd (Outbound.send_ofInput rfl)
  rcases (loaded id settings bytes).send_cases with
    ⟨hfailed, -⟩ | ⟨-, ⟨-, howed, -⟩ | ⟨-, hsend⟩⟩
  · cases hfailed
  · cases howed
  · rw [hsend, hfresh]
    rfl

theorem breaks_opening (hpos : 0 < settings.capacity) :
    ((loaded id settings bytes).sending.segment settings.initial.opening).breaks = false :=
  breaks_segment rfl hpos rfl

-- Who is asked to open a connection answers with the SYN of its own, and says for how much there
-- is room.
theorem receive_opening (hfits : settings.LingerFits) (initial : SeqNo) {feedback : Feedback}
    (hbreaks : Segment.breaks ⟨initial.opening, feedback⟩ = false) :
    ∃ answer rest,
      ((ofSettings id settings).receive ⟨initial.opening, feedback⟩).2 = answer :: rest ∧
        answer.rst = false ∧ answer.feedback =
          ⟨some (SeqNo.ofIndex 1 initial), UInt16.ofNat (min settings.capacity 65535), false⟩ := by
  obtain ⟨answer, rest, hanswer, -, hrst⟩ :=
    (unheard_ofSettings id hfits).receive_opens hbreaks
  have hmem : answer ∈ ((ofSettings id settings).receive ⟨initial.opening, feedback⟩).2 := by
    rw [hanswer]
    exact List.mem_cons_self
  refine ⟨answer, rest, hanswer, hrst, ?_⟩
  rw [(ofSettings id settings).feedback_receive _ answer hmem]
  have hlearned : (Inbound.ofCapacity settings.capacity).receive initial.opening =
      { Inbound.ofCapacity settings.capacity with initial := some (SeqNo.ofIndex 0 initial) } :=
    Inbound.receive_opening _ initial rfl rfl
  change ((Inbound.ofCapacity settings.capacity).receive initial.opening).feedback = _
  rw [hlearned, SeqNo.ofIndex_zero]
  rfl

-- The acknowledgment of the SYN lets out what was written, in one piece when nothing forbids it.
theorem receive_sending_loaded (hfits : settings.LingerFits) {answer : Segment}
    (hrst : answer.rst = false)
    (hackno : answer.feedback.ackno = some (SeqNo.ofIndex 1 settings.initial))
    (hwindow : bytes.length ≤ answer.feedback.window.toNat) (hsome : bytes ≠ [])
    (hcapacity : bytes.length ≤ settings.capacity) (hlimit : bytes.length ≤ settings.payloadLimit) :
    ∃ segment rest, ((loaded id settings bytes).sending.receive answer).2 = segment :: rest ∧
      segment.chunk.payload = bytes := by
  have hopened := outbound_sending_loaded id settings bytes
  have hwhole : (loaded id settings bytes).sending.failed = false :=
    (loaded id settings bytes).failed_sending
  have hunfinished : (loaded id settings bytes).sending.outbound.finished = false := by
    rw [hopened]
    rfl
  have hdeadline : (loaded id settings bytes).sending.DeadlineFits :=
    (deadlineFits_ofSettings id settings).mpr hfits
  have hactive := active_of_unfinished _ hwhole hunfinished hdeadline
  have hfed : ((loaded id settings bytes).sending.feed answer).failed = false := by
    rw [failed_feed, hwhole, Segment.breaks, hrst, hackno]
    rfl
  have hbuffer : ((Pipe.empty settings.capacity).push bytes).buffer = bytes :=
    (Pipe.empty settings.capacity).accepted_of_fits bytes rfl hcapacity
  obtain ⟨hinput, hportion, hgranted, hsyn, hfin, hnone⟩ := Outbound.receive_opened
    ((Pipe.empty settings.capacity).push bytes) settings.initial settings.timeout
    settings.payloadLimit answer.feedback (Bool.or_eq_false_iff.mp hrst).2 hackno
  rw [← hopened] at hinput hportion hgranted hsyn hfin hnone
  obtain ⟨chunk, rest, hfresh, hpayload⟩ := Outbound.send_whole hsyn hfin hnone
    (by rw [hinput, hbuffer]; exact hsome) (by rw [hinput, hbuffer, hportion]; exact hlimit)
    (by rw [hinput, hbuffer, hgranted]; exact hwindow)
  rw [hinput, hbuffer] at hpayload
  exact ⟨_, _, receive_of_fresh answer hactive hfed hfresh, hpayload⟩

end Connection

end UserTcp
