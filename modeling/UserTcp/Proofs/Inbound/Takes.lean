import UserTcp.Inbound
import UserTcp.Proofs.NearestIndex
import UserTcp.Proofs.Reassembly.Assembles
import UserTcp.Proofs.Segment.Placed

namespace UserTcp

open Reassembly (Piece)

namespace Chunk.Placed

variable {chunk : Chunk} {initial : SeqNo} {start : Nat} {stream : List UInt8} {ended : Bool}

theorem piece (hplaced : chunk.Placed initial start stream ended) :
    Piece ⟨chunk.offset start, chunk.payload⟩ stream := by
  intro index byte hbyte
  obtain ⟨rest, hrest⟩ := hplaced.payload_prefix
  rw [Run.byteAt?] at hbyte
  split at hbyte
  · cases hbyte
  · rename_i hge
    obtain ⟨hlt, -⟩ := List.getElem?_eq_some_iff.mp hbyte
    have hat : (chunk.payload ++ rest)[index - chunk.offset start]? = _ :=
      List.getElem?_append_left hlt
    rw [hrest, List.getElem?_drop, Nat.add_sub_cancel' (Nat.not_lt.mp hge)] at hat
    exact hat.trans hbyte

-- A receiver finds the place of a chunk that is less than half a lap away. At the end of
-- the index range it may look a lap too early, and there it wants nothing any more.
theorem streamIndex?_cases (hplaced : chunk.Placed initial start stream ended) (pushed index : Nat)
    (hnear : stream.length < pushed + SeqNo.lap / 2) (hbehind : pushed + 1 < start + SeqNo.lap / 2)
    (hindex : Inbound.streamIndex? chunk initial pushed = some index) :
    index = chunk.offset start ∨ index + chunk.payload.length < pushed := by
  have hle := hplaced.payload_le
  have hsum : chunk.seqno.nearestIndex initial (pushed + 1) + chunk.syn.toNat = index + 1 := by
    unfold Inbound.streamIndex? at hindex
    split at hindex
    · cases hindex
    · rename_i place hplace
      rw [hplace, Option.some.inj hindex]
  have hstart : start ≤ pushed + 1 + SeqNo.lap / 2 := by
    unfold offset at hle
    omega
  rw [hplaced.seqno_eq] at hsum
  unfold offset at hle ⊢
  rcases SeqNo.nearestIndex_ofIndex start (pushed + 1) initial hstart hbehind with
    hfound | ⟨-, hlap, hearly⟩
  · exact .inl (by omega)
  · -- so far from the beginning there is no SYN
    have hsyn : chunk.syn = false := by
      refine eq_false_of_ne_true fun hsyn => ?_
      have hzero := hplaced.syn_iff.mp hsyn
      simp only [SeqNo.lap] at hlap
      omega
    rw [hsyn, Bool.toNat_false] at hle hsum
    simp only [SeqNo.lap] at *
    exact .inr (by omega)

end Chunk.Placed

namespace Inbound

@[simp] theorem stream_mapStream (inbound : Inbound) (change : Pipe → Pipe) :
    (inbound.mapStream change).stream = change inbound.stream := rfl

-- What a receiver has of a stream that starts at `initial`. It counts as ended once its
-- FIN is out.
structure Takes (inbound : Inbound) (initial : SeqNo) (stream : List UInt8) (ended : Bool) :
    Prop where
  assembles : inbound.reassembly.Assembles stream
  initial_eq : ∀ known, inbound.initial = some known → known = initial
  final : ∀ index, inbound.reassembly.finalIndex = some index →
    index < inbound.stream.pushed ∨ ended = true ∧ index = stream.length
  whole : inbound.stream.closed = true → ended = true ∧ inbound.stream.pushed = stream.length

theorem takes_ofCapacity (capacity : Nat) (initial : SeqNo) :
    (ofCapacity capacity).Takes initial [] false where
  assembles := Reassembly.assembles_ofOutput capacity []
  initial_eq := fun _ hknown => by cases hknown
  final := fun _ hfinal => by cases hfinal
  whole := fun hclosed => by cases hclosed

-- The highest index that a receiver has acknowledged so far.
def confirmed (inbound : Inbound) : Nat :=
  (inbound.initial.map fun _ => inbound.received).getD 0

theorem confirmed_of_none (inbound : Inbound) (hnone : inbound.initial = none) :
    inbound.confirmed = 0 := by
  rw [confirmed, hnone]
  rfl

theorem confirmed_of_some (inbound : Inbound) {initial : SeqNo}
    (hsome : inbound.initial = some initial) : inbound.confirmed = inbound.received := by
  rw [confirmed, hsome]
  rfl

theorem confirmed_apply (inbound : Inbound) (op : Pipe.Op) (hop : op.feeds = false) :
    (inbound.mapStream fun pipe => (pipe.apply op).2).confirmed = inbound.confirmed := by
  simp only [confirmed, received, stream_mapStream, Pipe.pushed_apply _ op hop,
    Pipe.closed_apply_of_not_feeds _ op hop]
  rfl

namespace Takes

variable {inbound : Inbound} {initial : SeqNo} {stream : List UInt8} {ended : Bool}

theorem pushed_le (htakes : inbound.Takes initial stream ended) :
    inbound.stream.pushed ≤ stream.length :=
  htakes.assembles.expected_le

theorem popped_le (htakes : inbound.Takes initial stream ended) :
    inbound.stream.popped ≤ stream.length :=
  Nat.le_trans htakes.assembles.intact.output.popped_le
    (List.length_take_le' _ stream)

theorem grow (htakes : inbound.Takes initial stream ended) (more : List UInt8)
    (endedAfter : Bool) (hended : ended = true → endedAfter = true ∧ more = []) :
    inbound.Takes initial (stream ++ more) endedAfter where
  assembles := htakes.assembles.grow more
  initial_eq := htakes.initial_eq
  final := by
    intro index hfinal
    rcases htakes.final index hfinal with hlt | ⟨hbefore, hlen⟩
    · exact .inl hlt
    · obtain ⟨hafter, rfl⟩ := hended hbefore
      exact .inr ⟨hafter, by rw [List.append_nil, hlen]⟩
  whole := by
    intro hclosed
    obtain ⟨hbefore, hlen⟩ := htakes.whole hclosed
    obtain ⟨hafter, rfl⟩ := hended hbefore
    exact ⟨hafter, by rw [List.append_nil, hlen]⟩

-- What readers do leaves the count of received bytes alone.
protected theorem apply (htakes : inbound.Takes initial stream ended) (op : Pipe.Op)
    (hop : op.feeds = false) :
    (inbound.mapStream fun pipe => (pipe.apply op).2).Takes initial stream ended where
  assembles := htakes.assembles.apply op hop
  initial_eq := htakes.initial_eq
  final := by
    simp only [stream_mapStream, Pipe.pushed_apply _ op hop]
    exact htakes.final
  whole := by
    simp only [stream_mapStream, Pipe.pushed_apply _ op hop,
      Pipe.closed_apply_of_not_feeds _ op hop]
    exact htakes.whole

protected theorem insert (htakes : inbound.Takes initial stream ended) (piece : Run) (last : Bool)
    (hpiece : ∀ index byte, inbound.stream.pushed ≤ index → piece.byteAt? index = some byte →
      stream[index]? = some byte)
    (hlast : last = true → piece.stop < inbound.stream.pushed ∨
      ended = true ∧ piece.stop = stream.length) :
    { inbound with reassembly := inbound.reassembly.insert piece last }.Takes initial stream
      ended := by
  have hassembles := htakes.assembles.insert_beyond piece hpiece last
  have hgrows : inbound.stream.pushed ≤ (inbound.reassembly.insert piece last).expected :=
    htakes.assembles.intact.expected_le_insert piece last
  have hfinal : ∀ index, (inbound.reassembly.insert piece last).finalIndex = some index →
      index < (inbound.reassembly.insert piece last).expected ∨
        ended = true ∧ index = stream.length := by
    intro index hindex
    have hbefore : index < inbound.stream.pushed ∨ ended = true ∧ index = stream.length := by
      rcases Reassembly.finalIndex_insert_cases _ _ _ index hindex with hold | ⟨hnew, rfl⟩
      · exact htakes.final index hold
      · exact hlast hnew
    exact hbefore.imp_left fun hlt => Nat.lt_of_lt_of_le hlt hgrows
  refine ⟨hassembles, htakes.initial_eq, hfinal, ?_⟩
  intro hclosed
  cases hadmits : inbound.reassembly.admits piece with
  | false =>
      simp only [Inbound.stream, Reassembly.insert_of_not_admits _ _ _ hadmits] at hclosed ⊢
      exact htakes.whole hclosed
  | true =>
      have hat := (Reassembly.closed_insert _ _ _ hadmits).mp hclosed
      rcases hfinal _ hat with hlt | hwhole
      · exact absurd hlt (Nat.lt_irrefl _)
      · exact hwhole

-- A chunk of the stream comes in. One that takes up no sequence numbers may stand anywhere.
protected theorem place (htakes : inbound.Takes initial stream ended) (chunk : Chunk) (start : Nat)
    (hplaced : 0 < chunk.span → chunk.Placed initial start stream ended)
    (hnear : stream.length < inbound.stream.pushed + SeqNo.lap / 2)
    (hbehind : inbound.stream.pushed + 1 < start + SeqNo.lap / 2) :
    (inbound.place chunk initial).Takes initial stream ended := by
  unfold Inbound.place
  split
  · exact htakes
  · rename_i index hindex
    by_cases hspan : 0 < chunk.span
    · have hsound := hplaced hspan
      have hpiece := hsound.piece
      rcases hsound.streamIndex?_cases _ index hnear hbehind hindex with rfl | hearly
      · exact htakes.insert _ _ (fun index byte _ => hpiece index byte)
          fun hfin => .inr (hsound.fin_at hfin)
      · refine htakes.insert _ _ ?_ fun _ => .inl hearly
        intro place byte hle hbyte
        have hin := (Run.isSome_byteAt? _ place).mp (by rw [hbyte]; rfl)
        simp only [Run.stop] at hin
        omega
    · obtain ⟨hpayload, hfin⟩ := chunk.empty_of_span hspan
      rw [hpayload, hfin]
      refine htakes.insert _ _ ?_ (fun hlast => absurd hlast Bool.false_ne_true)
      intro place byte hle hbyte
      rw [Run.byteAt?, List.getElem?_nil, ite_self] at hbyte
      cases hbyte

theorem learn (htakes : inbound.Takes initial stream ended) :
    { inbound with initial := some initial }.Takes initial stream ended where
  assembles := htakes.assembles
  initial_eq := fun _ hknown => (Option.some.inj hknown).symm
  final := htakes.final
  whole := htakes.whole

protected theorem receive (htakes : inbound.Takes initial stream ended) (chunk : Chunk)
    (start : Nat) (hplaced : 0 < chunk.span → chunk.Placed initial start stream ended)
    (hnear : stream.length < inbound.stream.pushed + SeqNo.lap / 2)
    (hbehind : inbound.stream.pushed + 1 < start + SeqNo.lap / 2) :
    (inbound.receive chunk).Takes initial stream ended := by
  unfold Inbound.receive
  split
  · exact htakes.apply .fail rfl
  · split
    · rename_i known hknown
      obtain rfl := htakes.initial_eq known hknown
      exact htakes.place chunk start hplaced hnear hbehind
    · split
      · rename_i hsyn
        have hsound := hplaced (chunk.span_pos_of_syn hsyn)
        have hseqno : chunk.seqno = initial := by
          rw [hsound.seqno_eq, hsound.syn_iff.mp hsyn, SeqNo.ofIndex_zero]
        rw [hseqno]
        exact htakes.learn.place chunk start hplaced hnear hbehind
      · exact htakes

end Takes

@[simp] theorem initial_place (inbound : Inbound) (chunk : Chunk) (initial : SeqNo) :
    (inbound.place chunk initial).initial = inbound.initial := by
  unfold Inbound.place
  split <;> rfl

theorem gains_place (inbound : Inbound) (chunk : Chunk) (initial : SeqNo) :
    Pipe.Gains inbound.stream (inbound.place chunk initial).stream := by
  unfold Inbound.place
  split
  · exact .refl _
  · exact Reassembly.gains_insert _ _ _

theorem gains_receive (inbound : Inbound) (chunk : Chunk) (hrst : chunk.rst = false) :
    Pipe.Gains inbound.stream (inbound.receive chunk).stream := by
  rw [Inbound.receive, if_neg (by rw [hrst]; exact Bool.false_ne_true)]
  split
  · exact gains_place _ _ _
  · split
    · exact gains_place { inbound with initial := some chunk.seqno } _ _
    · exact .refl _

-- A reset takes nothing out of the stream either.
theorem receive_of_rst (inbound : Inbound) (chunk : Chunk) (hrst : chunk.rst = true) :
    inbound.receive chunk = inbound.mapStream Pipe.fail :=
  if_pos hrst

@[simp] theorem popped_receive (inbound : Inbound) (chunk : Chunk) :
    (inbound.receive chunk).stream.popped = inbound.stream.popped := by
  cases hrst : chunk.rst with
  | false => exact (inbound.gains_receive chunk hrst).popped_eq
  | true =>
      rw [receive_of_rst inbound chunk hrst]
      rfl

@[simp] theorem capacity_receive (inbound : Inbound) (chunk : Chunk) :
    (inbound.receive chunk).stream.capacity = inbound.stream.capacity := by
  cases hrst : chunk.rst with
  | false => exact (inbound.gains_receive chunk hrst).capacity_eq
  | true =>
      rw [receive_of_rst inbound chunk hrst]
      rfl

-- Nobody is granted more than the stream can hold.
theorem window_feedback_le (inbound : Inbound) :
    inbound.feedback.window.toNat ≤ inbound.stream.capacity := by
  have hfree : inbound.stream.free ≤ inbound.stream.capacity := Nat.sub_le _ _
  have hmod := Nat.mod_le (min inbound.stream.free 65535) (2 ^ 16)
  simp only [Inbound.feedback, UInt16.toNat_ofNat']
  omega

-- The count of received sequence numbers never goes back.
theorem received_le_place (inbound : Inbound) (chunk : Chunk) (initial : SeqNo)
    {history : List UInt8} (hintact : inbound.reassembly.Intact history) :
    inbound.received ≤ (inbound.place chunk initial).received := by
  unfold Inbound.place
  split
  · exact Nat.le_refl _
  · rename_i index hindex
    have hgrows : inbound.stream.pushed ≤
        (inbound.reassembly.insert ⟨index, chunk.payload⟩ chunk.fin).output.pushed :=
      hintact.expected_le_insert _ _
    have hclosed : inbound.stream.closed.toNat ≤
        (inbound.reassembly.insert ⟨index, chunk.payload⟩ chunk.fin).output.closed.toNat := by
      cases hopen : inbound.stream.closed with
      | false => exact Nat.zero_le _
      | true =>
          -- a closed output admits nothing
          have hadmits : inbound.reassembly.admits ⟨index, chunk.payload⟩ = false := by
            rw [Reassembly.admits, show inbound.reassembly.output.closed = true from hopen]
            rfl
          rw [Reassembly.insert_of_not_admits _ _ _ hadmits]
          exact Nat.le_of_eq (congrArg Bool.toNat hopen.symm)
    simp only [received, Inbound.stream] at hgrows hclosed ⊢
    omega

theorem initial_receive_of_some (inbound : Inbound) (chunk : Chunk) {known : SeqNo}
    (hknown : inbound.initial = some known) : (inbound.receive chunk).initial = some known := by
  unfold Inbound.receive
  split
  · exact hknown
  · split
    · rw [initial_place, hknown]
    · rename_i hnone
      rw [hnone] at hknown
      cases hknown

-- Only a SYN lets a receiver know where the stream starts.
theorem syn_of_initial_receive (inbound : Inbound) (chunk : Chunk)
    (hnone : inbound.initial = none) (hknown : (inbound.receive chunk).initial ≠ none) :
    chunk.syn = true := by
  by_contra hsyn
  apply hknown
  unfold Inbound.receive
  split
  · exact hnone
  · split
    · rename_i known hsome
      rw [hnone] at hsome
      cases hsome
    · exact hnone

theorem confirmed_le_receive (inbound : Inbound) (chunk : Chunk) {history : List UInt8}
    (hintact : inbound.reassembly.Intact history) :
    inbound.confirmed ≤ (inbound.receive chunk).confirmed := by
  cases hinitial : inbound.initial with
  | none =>
      rw [inbound.confirmed_of_none hinitial]
      exact Nat.zero_le _
  | some known =>
      rw [inbound.confirmed_of_some hinitial,
        (inbound.receive chunk).confirmed_of_some (inbound.initial_receive_of_some chunk hinitial)]
      unfold Inbound.receive
      split
      · exact Nat.le_refl _
      · rw [hinitial]
        exact inbound.received_le_place chunk known hintact

end Inbound

end UserTcp
