import UserTcp.Proofs.Outbound.Sent

namespace UserTcp.Outbound

-- What is done with a sender. The application works at its input and takes no bytes out.
inductive Call where
  | send
  | receive (feedback : Feedback)
  | elapse (time : Millis)
  | input (op : Pipe.Op) (hop : op.takes = false)

-- A chunk that goes out, for the first time or once more.
inductive Transmission where
  | fresh (chunk : Chunk)
  | again (chunk : Chunk)

namespace Transmission

def chunk : Transmission → Chunk
  | fresh chunk => chunk
  | again chunk => chunk

def fresh? : Transmission → Option Chunk
  | fresh chunk => some chunk
  | again _ => none

def Backed (log : List Transmission) : Prop :=
  ∀ index chunk, log[index]? = some (again chunk) → fresh chunk ∈ log.take index

theorem Backed.append {log : List Transmission} (hbacked : Backed log) (more : List Transmission)
    (hmore : ∀ chunk, again chunk ∈ more → fresh chunk ∈ log) : Backed (log ++ more) := by
  intro index chunk hat
  by_cases hold : index < log.length
  · rw [List.getElem?_append_left hold] at hat
    rw [List.take_append_of_le_length (Nat.le_of_lt hold)]
    exact hbacked index chunk hat
  · rw [List.getElem?_append_right (Nat.not_lt.mp hold)] at hat
    rw [List.take_append, List.take_of_length_le (Nat.not_lt.mp hold)]
    exact List.mem_append_left _ (hmore chunk (List.mem_of_getElem? hat))

end Transmission

-- A sender, all bytes that its input has accepted, and all that it has put on the wire.
structure Journal where
  outbound : Outbound
  written : List UInt8
  log : List Transmission

namespace Journal

def ofCapacity (capacity : Nat) (initial : SeqNo) (timeout : Millis) (payloadLimit : Nat) :
    Journal where
  outbound := ofInput (Pipe.empty capacity) initial timeout payloadLimit
  written := []
  log := []

def fresh (journal : Journal) : List Chunk :=
  journal.log.filterMap Transmission.fresh?

def step (journal : Journal) : Call → Journal
  | .send =>
      let sent := journal.outbound.send
      { journal with outbound := sent.1, log := journal.log ++ sent.2.map .fresh }
  | .receive feedback => { journal with outbound := journal.outbound.receive feedback }
  | .elapse time =>
      let sent := journal.outbound.elapse time
      { journal with outbound := sent.1, log := journal.log ++ sent.2.toList.map .again }
  | .input op _ =>
      { journal with
        outbound := { journal.outbound with input := (journal.outbound.input.apply op).2 }
        written := journal.written ++ op.added journal.outbound.input }

def run (journal : Journal) (calls : List Call) : Journal :=
  calls.foldl step journal

-- The journal of a sender that keeps to its stream.
structure Faithful (journal : Journal) (initial : SeqNo) : Prop where
  initial_eq : journal.outbound.initial = initial
  sent : journal.outbound.Sent journal.written journal.fresh
  logged : ∀ transmission ∈ journal.log, transmission.chunk ∈ journal.fresh
  backed : Transmission.Backed journal.log

theorem faithful_ofCapacity (capacity : Nat) (initial : SeqNo) (timeout : Millis)
    (payloadLimit : Nat) :
    (ofCapacity capacity initial timeout payloadLimit).Faithful initial where
  initial_eq := rfl
  sent := sent_ofInput capacity initial timeout payloadLimit
  logged := fun _ hmem => absurd hmem List.not_mem_nil
  backed := by
    intro index chunk hat
    cases hat

theorem fresh_send (journal : Journal) :
    (journal.step .send).fresh = journal.fresh ++ journal.outbound.send.2 := by
  simp [step, fresh, List.filterMap_append, List.filterMap_map, Function.comp_def,
    Transmission.fresh?]

theorem fresh_elapse (journal : Journal) (time : Millis) :
    (journal.step (.elapse time)).fresh = journal.fresh := by
  simp [step, fresh, List.filterMap_append, List.filterMap_map, Function.comp_def,
    Transmission.fresh?]

variable {journal : Journal} {initial : SeqNo}

theorem faithful_send (hfaithful : journal.Faithful initial) :
    (journal.step .send).Faithful initial where
  initial_eq := by rw [← hfaithful.initial_eq]; exact initial_fill _ _
  sent := by
    rw [fresh_send]
    exact hfaithful.sent.fill _
  logged := by
    intro transmission hmem
    rw [fresh_send]
    rcases List.mem_append.mp hmem with hmem | hmem
    · exact List.mem_append_left _ (hfaithful.logged transmission hmem)
    · obtain ⟨chunk, hchunk, rfl⟩ := List.mem_map.mp hmem
      exact List.mem_append_right _ hchunk
  backed := by
    refine hfaithful.backed.append _ ?_
    intro chunk hmem
    obtain ⟨other, -, hother⟩ := List.mem_map.mp hmem
    cases hother

theorem faithful_elapse (hfaithful : journal.Faithful initial) (time : Millis) :
    (journal.step (.elapse time)).Faithful initial := by
  have hsettles := hfaithful.sent.sends.settles_elapse time
  have hfresh := journal.fresh_elapse time
  -- what goes out now is the oldest flight, which went out before
  have hagain : ∀ chunk ∈ (journal.outbound.elapse time).2.toList, chunk ∈ journal.fresh := by
    intro chunk hmem
    have hhead := journal.outbound.head?_flights_of_elapse time chunk (Option.mem_toList.mp hmem)
    obtain ⟨flight, hflight, rfl⟩ := Option.map_eq_some_iff.mp hhead
    exact hfaithful.sent.mem_of_mem_flights flight (List.mem_of_head? hflight)
  constructor
  · exact hsettles.initial_eq.trans hfaithful.initial_eq
  · rw [hfresh]
    exact hfaithful.sent.settle hsettles
  · intro transmission hmem
    rw [hfresh]
    rcases List.mem_append.mp hmem with hmem | hmem
    · exact hfaithful.logged transmission hmem
    · obtain ⟨chunk, hchunk, rfl⟩ := List.mem_map.mp hmem
      exact hagain chunk hchunk
  · refine hfaithful.backed.append _ ?_
    intro chunk hmem
    obtain ⟨other, hother, heq⟩ := List.mem_map.mp hmem
    rw [Transmission.again.injEq] at heq
    obtain ⟨transmission, hlog, hfirst⟩ := List.mem_filterMap.mp (hagain chunk (heq ▸ hother))
    cases transmission with
    | fresh first =>
        cases hfirst
        exact hlog
    | again first => cases hfirst

theorem faithful_step (hfaithful : journal.Faithful initial) (call : Call) :
    (journal.step call).Faithful initial := by
  cases call with
  | send => exact faithful_send hfaithful
  | receive feedback =>
      have hsettles := hfaithful.sent.sends.settles_receive feedback
      exact ⟨hsettles.initial_eq.trans hfaithful.initial_eq, hfaithful.sent.settle hsettles,
        hfaithful.logged, hfaithful.backed⟩
  | elapse time => exact faithful_elapse hfaithful time
  | input op hop =>
      exact ⟨hfaithful.initial_eq, hfaithful.sent.apply op hop, hfaithful.logged,
        hfaithful.backed⟩

theorem faithful_run (hfaithful : journal.Faithful initial) (calls : List Call) :
    (journal.run calls).Faithful initial := by
  induction calls generalizing journal with
  | nil => exact hfaithful
  | cons call rest ih => exact ih (faithful_step hfaithful call)

end Journal

-- What a sender puts on the wire is the stream that its input accepts, between a SYN and a
-- FIN, whatever feedback comes and whatever time passes. The first transmissions follow each other
-- without a gap, each with the sequence number and the bytes that belong where it starts, and only
-- what went out before goes out again.
theorem sends_the_stream (capacity : Nat) (initial : SeqNo) (timeout : Millis) (payloadLimit : Nat)
    (calls : List Call) :
    let journal := (Journal.ofCapacity capacity initial timeout payloadLimit).run calls
    let outbound := journal.outbound
    outbound.input.Carries journal.written ∧
      outbound.next =
        outbound.synSent.toNat + outbound.input.popped + outbound.finSent.toNat ∧
      Tiles 0 (locate 0 journal.fresh) outbound.next ∧
      (∀ flight ∈ locate 0 journal.fresh,
        flight.chunk.Placed initial flight.start journal.written outbound.input.closed) ∧
      (∀ transmission ∈ journal.log, ∃ flight ∈ locate 0 journal.fresh,
        flight.chunk = transmission.chunk) ∧
      journal.fresh.countP Chunk.syn ≤ 1 ∧
      journal.fresh.countP Chunk.fin ≤ 1 ∧
      (∀ chunk ∈ journal.fresh.dropLast, chunk.fin = false) ∧
      Transmission.Backed journal.log := by
  intro journal outbound
  obtain ⟨hinitial, hsent, hlogged, hbacked⟩ :=
    Journal.faithful_run (Journal.faithful_ofCapacity capacity initial timeout payloadLimit) calls
  refine ⟨hsent.sends.input, hsent.sends.next_eq, hsent.tiles, hinitial ▸ hsent.placed, ?_, ?_, ?_,
    hsent.fin_last, hbacked⟩
  · intro transmission hmem
    have hfresh := hlogged transmission hmem
    rw [← map_chunk_locate 0 journal.fresh] at hfresh
    exact List.mem_map.mp hfresh
  · exact hsent.syn_count ▸ Bool.toNat_le _
  · exact hsent.fin_count ▸ Bool.toNat_le _

end UserTcp.Outbound
