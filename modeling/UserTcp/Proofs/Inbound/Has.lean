import UserTcp.Proofs.Inbound.Promise
import UserTcp.Proofs.Inbound.Reaches

namespace UserTcp.Inbound

-- A sequence number is in: the SYN when it is known where the stream starts, a byte when it
-- has gone out or is held, the FIN when its place is known.
def Has (inbound : Inbound) : Nat → Prop
  | 0 => inbound.initial ≠ none
  | index + 1 =>
      inbound.reassembly.Holds index ∨ inbound.reassembly.finalIndex = some index

@[simp] theorem has_zero (inbound : Inbound) : inbound.Has 0 ↔ inbound.initial ≠ none :=
  Iff.rfl

@[simp] theorem has_succ (inbound : Inbound) (index : Nat) : inbound.Has (index + 1) ↔
    inbound.reassembly.Holds index ∨ inbound.reassembly.finalIndex = some index :=
  Iff.rfl

-- Readers and a break of the stream change nothing of what is in.
@[simp] theorem has_apply (inbound : Inbound) (op : Pipe.Op) (hop : op.feeds = false)
    (index : Nat) :
    (inbound.mapStream fun pipe => (pipe.apply op).2).Has index ↔ inbound.Has index := by
  cases index with
  | zero => rfl
  | succ index =>
      simp only [has_succ, Reassembly.Holds, Reassembly.expected, mapStream,
        Pipe.pushed_apply _ op hop]

theorem Orderly.has_of_lt_confirmed {inbound : Inbound} (horderly : inbound.Orderly) {index : Nat}
    (hlt : index < inbound.confirmed) : inbound.Has index := by
  cases hinitial : inbound.initial with
  | none =>
      rw [inbound.confirmed_of_none hinitial] at hlt
      exact absurd hlt (Nat.not_lt_zero index)
  | some known =>
      rw [inbound.confirmed_of_some hinitial, received] at hlt
      cases index with
      | zero =>
          rw [has_zero, hinitial]
          exact Option.some_ne_none known
      | succ index =>
          by_cases hout : index < inbound.stream.pushed
          · exact .inl (.inl hout)
          · -- behind the bytes there is only the FIN of a closed stream
            cases hclosed : inbound.stream.closed with
            | false =>
                rw [hclosed, Bool.toNat_false] at hlt
                omega
            | true =>
                rw [hclosed, Bool.toNat_true] at hlt
                have hfinal := horderly.closed_iff.mp hclosed
                rw [show inbound.stream.pushed = index by omega] at hfinal
                exact .inr hfinal

namespace Takes

variable {inbound : Inbound} {initial : SeqNo} {stream : List UInt8} {ended : Bool}

theorem lt_length_of_holds (htakes : inbound.Takes initial stream ended) {index : Nat}
    (hholds : inbound.reassembly.Holds index) : index < stream.length := by
  rcases hholds with hout | ⟨run, hmem, hstart, hstop⟩
  · exact Nat.lt_of_lt_of_le hout htakes.assembles.expected_le
  · obtain ⟨byte, hbyte⟩ :=
      Option.isSome_iff_exists.mp ((run.isSome_byteAt? index).mpr ⟨hstart, hstop⟩)
    exact (List.getElem?_eq_some_iff.mp (htakes.assembles.piece run hmem index byte hbyte)).1

-- What is confirmed ends where the first sequence number is missing.
theorem not_has_confirmed (htakes : inbound.Takes initial stream ended)
    (horderly : inbound.Orderly) : ¬ inbound.Has inbound.confirmed := by
  intro hhas
  cases hinitial : inbound.initial with
  | none =>
      rw [inbound.confirmed_of_none hinitial] at hhas
      exact hhas hinitial
  | some known =>
      rw [inbound.confirmed_of_some hinitial, received] at hhas
      cases hclosed : inbound.stream.closed with
      | false =>
          rw [hclosed, Bool.toNat_false, Nat.add_zero, Nat.add_comm, has_succ] at hhas
          rcases hhas with hholds | hfinal
          · exact Reassembly.not_holds_expected htakes.assembles.intact hholds
          · rw [horderly.closed_iff.mpr hfinal] at hclosed
            cases hclosed
      | true =>
          rw [hclosed, Bool.toNat_true, show 1 + inbound.stream.pushed + 1 =
            inbound.stream.pushed + 1 + 1 by omega, has_succ] at hhas
          rcases hhas with hholds | hfinal
          · have hlt := htakes.lt_length_of_holds hholds
            rw [(htakes.whole hclosed).2] at hlt
            omega
          · rw [horderly.closed_iff.mp hclosed, Option.some.injEq] at hfinal
            omega

theorem le_confirmed (htakes : inbound.Takes initial stream ended) (horderly : inbound.Orderly)
    {bound : Nat} (hall : ∀ index < bound, inbound.Has index) : bound ≤ inbound.confirmed := by
  by_contra hlt
  exact htakes.not_has_confirmed horderly (hall _ (Nat.lt_of_not_ge hlt))

-- A chunk brings in no other numbers than its own.
theorem has_place_cases (htakes : inbound.Takes initial stream ended) (chunk : Chunk) (start : Nat)
    (hplaced : 0 < chunk.span → chunk.Placed initial start stream ended)
    (hnear : stream.length < inbound.stream.pushed + SeqNo.lap / 2)
    (hbehind : inbound.stream.pushed + 1 < start + SeqNo.lap / 2) {index : Nat}
    (hhas : (inbound.place chunk initial).Has index) :
    inbound.Has index ∨ 0 < chunk.span ∧ start ≤ index ∧ index < start + chunk.span := by
  cases index with
  | zero =>
      rw [has_zero, initial_place] at hhas
      exact .inl hhas
  | succ index =>
      unfold Inbound.place at hhas
      split at hhas
      · exact .inl hhas
      · rename_i place hplace
        -- whatever is new is in the payload or is the FIN behind it
        have hnew : inbound.Has (index + 1) ∨
            place ≤ index ∧ index < place + chunk.payload.length ∨
            chunk.fin = true ∧ index = place + chunk.payload.length := by
          rcases hhas with hholds | hfinal
          · cases hadmits : inbound.reassembly.admits ⟨place, chunk.payload⟩ with
            | false =>
                simp only [Reassembly.insert_of_not_admits _ _ _ hadmits] at hholds
                exact .inl (.inl hholds)
            | true =>
                rcases (Reassembly.holds_insert htakes.assembles.intact _ _ hadmits index).mp hholds
                  with hold | ⟨hstart, hstop, -⟩
                · exact .inl (.inl hold)
                · exact .inr (.inl ⟨hstart, hstop⟩)
          · rcases Reassembly.finalIndex_insert_cases _ _ _ index hfinal with hold | hlast
            · exact .inl (.inr hold)
            · exact .inr (.inr hlast)
        rcases hnew with hold | hnew
        · exact .inl hold
        by_cases hspan : 0 < chunk.span
        · have hsound := hplaced hspan
          have hfirst := hsound.one_le
          rcases hsound.streamIndex?_cases _ place hnear hbehind hplace with rfl | hearly
          · have hstop : index < chunk.offset start + chunk.payload.length + chunk.fin.toNat := by
              rcases hnew with ⟨-, hlt⟩ | ⟨hfin, rfl⟩
              · omega
              · rw [hfin, Bool.toNat_true]
                omega
            simp only [Chunk.span, Chunk.offset] at *
            exact .inr (by omega)
          · exact .inl (.inl (.inl (show index < inbound.stream.pushed by omega)))
        · obtain ⟨hpayload, hfin⟩ := chunk.empty_of_span hspan
          rw [hpayload, hfin, List.length_nil] at hnew
          simp only [Bool.false_eq_true, false_and, or_false] at hnew
          omega

theorem has_receive_cases (htakes : inbound.Takes initial stream ended) (chunk : Chunk)
    (start : Nat) (hplaced : 0 < chunk.span → chunk.Placed initial start stream ended)
    (hnear : stream.length < inbound.stream.pushed + SeqNo.lap / 2)
    (hbehind : inbound.stream.pushed + 1 < start + SeqNo.lap / 2) {index : Nat}
    (hhas : (inbound.receive chunk).Has index) :
    inbound.Has index ∨ 0 < chunk.span ∧ start ≤ index ∧ index < start + chunk.span := by
  unfold Inbound.receive at hhas
  split at hhas
  · exact .inl ((inbound.has_apply .fail rfl index).mp hhas)
  · split at hhas
    · rename_i known hknown
      obtain rfl := htakes.initial_eq known hknown
      exact htakes.has_place_cases chunk start hplaced hnear hbehind hhas
    · split at hhas
      · rename_i hsyn
        have hspan := chunk.span_pos_of_syn hsyn
        have hsound := hplaced hspan
        have hstart := hsound.syn_iff.mp hsyn
        have hseqno : chunk.seqno = initial := by
          rw [hsound.seqno_eq, hstart, SeqNo.ofIndex_zero]
        rw [hseqno] at hhas
        rcases htakes.learn.has_place_cases chunk start hplaced hnear hbehind hhas with
          hold | hnew
        · cases index with
          | zero => exact .inr ⟨hspan, by omega, by omega⟩
          | succ index => exact .inl hold
        · exact .inr hnew
      · exact .inl hhas

-- A chunk within the 64 bits of the indices takes out nothing that was in.
theorem has_place_mono (htakes : inbound.Takes initial stream ended) (chunk : Chunk) (start : Nat)
    (hplaced : 0 < chunk.span → chunk.Placed initial start stream ended)
    (hnear : stream.length < inbound.stream.pushed + SeqNo.lap / 2)
    (hbehind : inbound.stream.pushed + 1 < start + SeqNo.lap / 2)
    (hlimit : start < SeqNo.indexLimit) {index : Nat} (hhas : inbound.Has index) :
    (inbound.place chunk initial).Has index := by
  cases index with
  | zero =>
      rw [has_zero, initial_place]
      exact hhas
  | succ index =>
      unfold Inbound.place
      split
      · exact hhas
      · rename_i place hplace
        rcases hhas with hholds | hfinal
        · exact .inl (htakes.assembles.intact.holds_mono_insert _ _ hholds)
        cases hadmits : inbound.reassembly.admits ⟨place, chunk.payload⟩ with
        | false =>
            rw [Reassembly.insert_of_not_admits _ _ _ hadmits]
            exact .inr hfinal
        | true =>
            rcases htakes.final index hfinal with hout | ⟨-, hlength⟩
            · exact .inl (htakes.assembles.intact.holds_mono_insert _ _ (.inl hout))
            · right
              simp only [Reassembly.finalIndex_insert _ _ _ hadmits]
              split
              · rename_i hlast
                have hfin := (Bool.and_eq_true_iff.mp hlast).1
                have hsound := hplaced (chunk.span_pos_of_fin hfin)
                have hle := hsound.payload_le
                have hfirst := hsound.one_le
                have hat := hsound.streamIndex?_eq inbound.stream.pushed
                  (by unfold Chunk.offset at hle; omega) hbehind hlimit
                rw [hat, Option.some.injEq] at hplace
                rw [Run.stop, ← hplace, (hsound.fin_at hfin).2, hlength]
              · exact hfinal

theorem has_receive_mono (htakes : inbound.Takes initial stream ended) (chunk : Chunk)
    (start : Nat) (hplaced : 0 < chunk.span → chunk.Placed initial start stream ended)
    (hnear : stream.length < inbound.stream.pushed + SeqNo.lap / 2)
    (hbehind : inbound.stream.pushed + 1 < start + SeqNo.lap / 2)
    (hlimit : start < SeqNo.indexLimit) {index : Nat} (hhas : inbound.Has index) :
    (inbound.receive chunk).Has index := by
  unfold Inbound.receive
  split
  · exact (inbound.has_apply .fail rfl index).mpr hhas
  · split
    · rename_i known hknown
      obtain rfl := htakes.initial_eq known hknown
      exact htakes.has_place_mono chunk start hplaced hnear hbehind hlimit hhas
    · rename_i hnone
      split
      · rename_i hsyn
        have hsound := hplaced (chunk.span_pos_of_syn hsyn)
        have hseqno : chunk.seqno = initial := by
          rw [hsound.seqno_eq, hsound.syn_iff.mp hsyn, SeqNo.ofIndex_zero]
        rw [hseqno]
        refine htakes.learn.has_place_mono chunk start hplaced hnear hbehind hlimit ?_
        cases index with
        | zero => exact Option.some_ne_none initial
        | succ index => exact hhas
      · exact hhas

-- An open receiver takes all of a chunk that ends before the first number without room.
theorem has_place_of_room (htakes : inbound.Takes initial stream ended) (chunk : Chunk)
    (start : Nat) (hplaced : chunk.Placed initial start stream ended)
    (hknown : inbound.initial ≠ none) (hopen : inbound.stream.closed = false)
    (hfree : 0 < inbound.stream.free) (hstop : start + chunk.span ≤ inbound.edge)
    (hbehind : inbound.stream.pushed + 1 < start + SeqNo.lap / 2)
    (hnear : stream.length < inbound.stream.pushed + SeqNo.lap / 2)
    (hlimit : start < SeqNo.indexLimit) {index : Nat} (hstart : start ≤ index)
    (hlt : index < start + chunk.span) : (inbound.place chunk initial).Has index := by
  have hfirst := hplaced.one_le
  have hle := hplaced.payload_le
  have hat := hplaced.streamIndex?_eq inbound.stream.pushed
    (by unfold Chunk.offset at hle; omega) hbehind hlimit
  cases index with
  | zero =>
      rw [has_zero, initial_place]
      exact hknown
  | succ index =>
      have hlimit : inbound.reassembly.limit = inbound.stream.pushed + inbound.stream.free := rfl
      rw [edge, received, hopen, Bool.toNat_false] at hstop
      -- the SYN, if there is one, lies before the place of the payload
      have hoffset : chunk.offset start ≤ index := by
        unfold Chunk.offset
        cases hsyn : chunk.syn with
        | false =>
            rw [Bool.toNat_false]
            omega
        | true =>
            have hzero := hplaced.syn_iff.mp hsyn
            rw [Bool.toNat_true]
            omega
      have hbefore : chunk.offset start + chunk.payload.length + chunk.fin.toNat ≤
          inbound.reassembly.limit := by
        simp only [Chunk.span, Chunk.offset] at *
        omega
      simp only [Inbound.place, hat]
      by_cases hbyte : index < chunk.offset start + chunk.payload.length
      · exact .inl (htakes.assembles.intact.holds_insert_of_open _ _ hopen hoffset hbyte
          (by omega))
      · -- behind the payload there is only the FIN
        have hfin : chunk.fin = true := by
          by_contra hnone
          rw [eq_false_of_ne_true hnone, Bool.toNat_false] at hbefore
          simp only [Chunk.span, Chunk.offset, eq_false_of_ne_true hnone, Bool.toNat_false] at *
          omega
        rw [hfin, Bool.toNat_true] at hbefore
        have hend : index = chunk.offset start + chunk.payload.length := by
          simp only [Chunk.span, Chunk.offset, hfin, Bool.toNat_true] at *
          omega
        have hadmits := (inbound.reassembly.admits_iff ⟨chunk.offset start, chunk.payload⟩).mpr
          ⟨hopen, hfree, show chunk.offset start < inbound.reassembly.limit by omega⟩
        right
        rw [Reassembly.finalIndex_insert _ _ _ hadmits, hfin, Bool.true_and, Run.stop, if_pos]
        · rw [hend]
        · rw [decide_eq_true_eq]
          exact Nat.le_of_succ_le hbefore

theorem has_receive_of_room (htakes : inbound.Takes initial stream ended) (chunk : Chunk)
    (start : Nat) (hplaced : chunk.Placed initial start stream ended) (hrst : chunk.rst = false)
    (hlearns : inbound.initial ≠ none ∨ chunk.syn = true) (hopen : inbound.stream.closed = false)
    (hfree : 0 < inbound.stream.free) (hstop : start + chunk.span ≤ inbound.edge)
    (hbehind : inbound.stream.pushed + 1 < start + SeqNo.lap / 2)
    (hnear : stream.length < inbound.stream.pushed + SeqNo.lap / 2)
    (hlimit : start < SeqNo.indexLimit) {index : Nat} (hstart : start ≤ index)
    (hlt : index < start + chunk.span) : (inbound.receive chunk).Has index := by
  rw [Inbound.receive, if_neg (by rw [hrst]; exact Bool.false_ne_true)]
  split
  · rename_i known hknown
    obtain rfl := htakes.initial_eq known hknown
    exact htakes.has_place_of_room chunk start hplaced
      (by rw [hknown]; exact Option.some_ne_none known) hopen hfree hstop hbehind hnear hlimit
      hstart hlt
  · rename_i hnone
    have hsyn := hlearns.resolve_left fun hknown => hknown hnone
    have hseqno : chunk.seqno = initial := by
      rw [hplaced.seqno_eq, hplaced.syn_iff.mp hsyn, SeqNo.ofIndex_zero]
    rw [if_pos hsyn, hseqno]
    exact htakes.learn.has_place_of_room chunk start hplaced (Option.some_ne_none initial) hopen
      hfree hstop hbehind hnear hlimit hstart hlt

-- A receiver that has not heard of the stream has all its room.
theorem free_of_unlearned (htakes : inbound.Takes initial stream ended)
    (horderly : inbound.Orderly) (hnone : inbound.initial = none) :
    inbound.stream.free = inbound.stream.capacity := by
  have hpushed := horderly.unlearned hnone
  have hbuffer := htakes.assembles.intact.output.buffer_eq
  rw [show inbound.reassembly.expected = 0 from hpushed, List.take_zero, List.drop_nil] at hbuffer
  change inbound.stream.buffer = [] at hbuffer
  rw [Pipe.free, Pipe.buffered, hbuffer, List.length_nil, Nat.sub_zero]

theorem confirmed_eq_of_missing (htakes : inbound.Takes initial stream ended)
    (horderly : inbound.Orderly) {bound : Nat} (hall : ∀ index < bound, inbound.Has index)
    (hmissing : ¬ inbound.Has bound) : inbound.confirmed = bound := by
  refine Nat.le_antisymm ?_ (htakes.le_confirmed horderly hall)
  by_contra hlt
  exact hmissing (horderly.has_of_lt_confirmed (Nat.lt_of_not_ge hlt))

end Takes

-- Without room nothing is taken.
theorem receive_of_full (inbound : Inbound) (chunk : Chunk) (hrst : chunk.rst = false)
    (hknown : inbound.initial ≠ none) (hfull : inbound.stream.free = 0) :
    inbound.receive chunk = inbound := by
  obtain ⟨known, hsome⟩ := Option.ne_none_iff_exists'.mp hknown
  rw [Inbound.receive, if_neg (by rw [hrst]; exact Bool.false_ne_true), hsome]
  simp only [Inbound.place]
  split
  · rfl
  · rw [Reassembly.insert_of_not_admits]
    have hroom : inbound.reassembly.output.free = 0 := hfull
    simp only [Reassembly.admits, hroom, bne_self_eq_false, Bool.and_false, Bool.false_and]

theorem Orderly.pushed_le_confirmed {inbound : Inbound} (horderly : inbound.Orderly) :
    inbound.stream.pushed ≤ inbound.confirmed := by
  cases hinitial : inbound.initial with
  | none =>
      rw [horderly.unlearned hinitial]
      exact Nat.zero_le _
  | some known =>
      rw [inbound.confirmed_of_some hinitial, received]
      omega

theorem confirmed_le_received (inbound : Inbound) : inbound.confirmed ≤ inbound.received := by
  cases hinitial : inbound.initial with
  | none =>
      rw [inbound.confirmed_of_none hinitial]
      exact Nat.zero_le _
  | some known => exact Nat.le_of_eq (inbound.confirmed_of_some hinitial)

end UserTcp.Inbound
