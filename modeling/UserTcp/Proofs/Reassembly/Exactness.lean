import UserTcp.Proofs.Reassembly.Assembles
import Mathlib.Order.Bounds.Basic
import Mathlib.Order.Interval.Set.Basic

namespace UserTcp.Reassembly

-- A part of a stream, as it is offered to a reassembly. Only a part that ends where the
-- stream ends may be called the last one.
structure Fragment (stream : List UInt8) where
  start : Nat
  stop : Nat
  last : Bool
  start_le : start ≤ stop
  stop_le : stop ≤ stream.length
  stop_eq : last = true → stop = stream.length

def Fragment.run {stream : List UInt8} (fragment : Fragment stream) : Run :=
  ⟨fragment.start, (stream.take fragment.stop).drop fragment.start⟩

theorem Fragment.stop_run {stream : List UInt8} (fragment : Fragment stream) :
    fragment.run.stop = fragment.stop := by
  have hstart := fragment.start_le
  have hstop := fragment.stop_le
  simp only [run, Run.stop, List.length_drop, List.length_take]
  omega

theorem Fragment.piece {stream : List UInt8} (fragment : Fragment stream) :
    Piece fragment.run stream := by
  intro index byte hbyte
  have hin := (fragment.run.isSome_byteAt? index).mp (by rw [hbyte]; rfl)
  rw [fragment.stop_run] at hin
  have hstart : fragment.start ≤ index := hin.1
  have hplace : fragment.start + (index - fragment.start) = index := Nat.add_sub_cancel' hstart
  simpa only [Run.byteAt?, run, Nat.not_lt.mpr hstart, ↓reduceIte, List.getElem?_drop,
    List.getElem?_take, hplace, hin.2] using hbyte

-- One step of the life of a reassembly: a fragment comes in, or a reader works at the output.
inductive Move (stream : List UInt8) where
  | insert (fragment : Fragment stream)
  | reader (op : Pipe.Op) (hop : op.feeds = false)

-- A reassembly together with what has happened to it.
structure Record (stream : List UInt8) where
  reassembly : Reassembly
  -- All that readers took out of the output, in order.
  taken : List UInt8
  -- The indices that were offered when there was room for them.
  offered : Set Nat
  -- A last fragment came when it could be used to its end.
  ended : Prop

namespace Record

variable {stream : List UInt8}

def ofCapacity (stream : List UInt8) (capacity : Nat) : Record stream where
  reassembly := ofOutput (Pipe.empty capacity)
  taken := []
  offered := ∅
  ended := False

def step (record : Record stream) : Move stream → Record stream
  | .insert fragment =>
      let output := record.reassembly.output
      { reassembly := record.reassembly.insert fragment.run fragment.last
        taken := record.taken
        offered := record.offered ∪
          Set.Ico fragment.start fragment.stop ∩ Set.Iio (output.popped + output.capacity)
        ended := record.ended ∨ fragment.last = true ∧ output.closed = false ∧ 0 < output.free ∧
          fragment.start < output.pushed + output.free ∧
          stream.length ≤ output.pushed + output.free }
  | .reader op _ =>
      let output := record.reassembly.output
      { record with
        reassembly := { record.reassembly with output := (output.apply op).2 }
        taken := record.taken ++ op.removed output }

def run (record : Record stream) (moves : List (Move stream)) : Record stream :=
  moves.foldl step record

-- What ties a reassembly to its history.
structure Exact (record : Record stream) : Prop where
  assembles : record.reassembly.Assembles stream
  taken_eq : record.taken = stream.take record.reassembly.output.popped
  holds_iff : ∀ index, record.reassembly.Holds index ↔ index ∈ record.offered
  final_eq : ∀ index, record.reassembly.finalIndex = some index → index = stream.length
  final_iff : record.reassembly.finalIndex = some stream.length ↔ record.ended
  closed_iff : record.reassembly.output.closed = true ↔
    record.reassembly.expected = stream.length ∧ record.ended

theorem exact_ofCapacity (stream : List UInt8) (capacity : Nat) :
    (ofCapacity stream capacity).Exact where
  assembles := assembles_ofOutput capacity stream
  taken_eq := rfl
  holds_iff := by
    intro index
    simp [ofCapacity, Holds, expected, ofOutput, Held.empty, Pipe.empty]
  final_eq := fun index hfinal => by cases hfinal
  final_iff := by simp [ofCapacity, ofOutput]
  closed_iff := by simp [ofCapacity, ofOutput, Pipe.empty]

variable {record : Record stream}

theorem mem_offered_insert (hexact : record.Exact) (fragment : Fragment stream) (index : Nat) :
    index ∈ (record.step (.insert fragment)).offered ↔ index ∈ record.offered ∨
      fragment.start ≤ index ∧ index < fragment.stop ∧ index < record.reassembly.limit := by
  rw [hexact.assembles.intact.limit_eq]
  simp only [step, Set.mem_union, Set.mem_inter_iff, Set.mem_Ico, Set.mem_Iio, and_assoc]

theorem ended_insert (record : Record stream) (fragment : Fragment stream) :
    (record.step (.insert fragment)).ended ↔ record.ended ∨
      record.reassembly.admits fragment.run = true ∧ fragment.last = true ∧
        stream.length ≤ record.reassembly.limit := by
  rw [admits_iff]
  simp only [step, limit, expected, Fragment.run]
  tauto

-- A fragment that is not admitted brings nothing that is not in already.
theorem exact_insert_of_not_admits (hexact : record.Exact) (fragment : Fragment stream)
    (hadmits : record.reassembly.admits fragment.run = false) :
    (record.step (.insert fragment)).Exact := by
  have hended := ended_insert record fragment
  rw [hadmits] at hended
  simp only [Bool.false_eq_true, false_and, or_false] at hended
  have hsame : (record.step (.insert fragment)).reassembly = record.reassembly :=
    insert_of_not_admits _ _ _ hadmits
  constructor
  · rw [hsame]
    exact hexact.assembles
  · rw [hsame]
    exact hexact.taken_eq
  · intro index
    rw [mem_offered_insert hexact, hsame, hexact.holds_iff]
    refine ⟨.inl, fun hin => hin.elim id fun hin => (hexact.holds_iff index).mp (.inl ?_)⟩
    have hlimit : record.reassembly.limit =
        record.reassembly.expected + record.reassembly.output.free := rfl
    have hnot := mt (admits_iff record.reassembly fragment.run).mpr (by simp [hadmits])
    by_contra hout
    apply hnot
    refine ⟨?_, by omega, Nat.lt_of_le_of_lt hin.1 hin.2.2⟩
    -- nothing is missing once the output is closed
    by_contra hclosed
    have hall := (hexact.closed_iff.mp (Bool.eq_true_of_not_eq_false hclosed)).1
    have hstop := fragment.stop_le
    omega
  · rw [hsame]
    exact hexact.final_eq
  · rw [hsame, hended]
    exact hexact.final_iff
  · rw [hsame, hended]
    exact hexact.closed_iff

theorem exact_insert_of_admits (hexact : record.Exact) (fragment : Fragment stream)
    (hadmits : record.reassembly.admits fragment.run = true) :
    (record.step (.insert fragment)).Exact := by
  have hended := ended_insert record fragment
  have hfinal := finalIndex_insert _ fragment.run fragment.last hadmits
  have hclosed := closed_insert _ fragment.run fragment.last hadmits
  rw [fragment.stop_run] at hfinal
  rw [hadmits] at hended
  simp only [true_and] at hended
  have hfinal_eq : ∀ index,
      (record.reassembly.insert fragment.run fragment.last).finalIndex = some index →
        index = stream.length := by
    intro index hindex
    rcases finalIndex_insert_cases _ _ _ index hindex with hold | ⟨hlast, rfl⟩
    · exact hexact.final_eq index hold
    · exact fragment.stop_run.trans (fragment.stop_eq hlast)
  have hfinal_iff : (record.reassembly.insert fragment.run fragment.last).finalIndex =
      some stream.length ↔ (record.step (.insert fragment)).ended := by
    rw [hended, hfinal, ← hexact.final_iff]
    split
    · rename_i hlast
      rw [Bool.and_eq_true, decide_eq_true_eq] at hlast
      have hstop := fragment.stop_eq hlast.1
      simp only [hlast.1, true_and, ← hstop, hlast.2, or_true]
    · rename_i hlast
      rw [Bool.and_eq_true, decide_eq_true_eq] at hlast
      refine ⟨.inl, fun h => h.elim id fun hin => absurd ?_ hlast⟩
      exact ⟨hin.1, fragment.stop_eq hin.1 ▸ hin.2⟩
  constructor
  · exact hexact.assembles.insert fragment.run fragment.piece fragment.last
  · exact hexact.taken_eq.trans (by rw [step, popped_insert])
  · intro index
    rw [mem_offered_insert hexact, ← hexact.holds_iff, ← fragment.stop_run]
    exact holds_insert hexact.assembles.intact fragment.run fragment.last hadmits index
  · exact hfinal_eq
  · exact hfinal_iff
  · refine hclosed.trans ?_
    rw [← hfinal_iff]
    constructor
    · intro hat
      have hlen := hfinal_eq _ hat
      exact ⟨hlen, hlen ▸ hat⟩
    · rintro ⟨hlen, hat⟩
      exact hat.trans (congrArg some hlen.symm)

theorem exact_reader (hexact : record.Exact) (op : Pipe.Op) (hop : op.feeds = false) :
    (record.step (.reader op hop)).Exact where
  assembles := hexact.assembles.apply op hop
  taken_eq := by
    rw [step, hexact.taken_eq]
    exact (hexact.assembles.take_popped_apply op hop).symm
  holds_iff := by
    intro index
    have hholds := hexact.holds_iff index
    simp only [Holds, expected, step, Pipe.pushed_apply _ op hop] at hholds ⊢
    exact hholds
  final_eq := hexact.final_eq
  final_iff := hexact.final_iff
  closed_iff := by
    simp only [step, expected, Pipe.pushed_apply _ op hop, Pipe.closed_apply_of_not_feeds _ op hop]
    exact hexact.closed_iff

theorem exact_step (hexact : record.Exact) (move : Move stream) : (record.step move).Exact := by
  cases move with
  | insert fragment =>
      cases hadmits : record.reassembly.admits fragment.run with
      | false => exact exact_insert_of_not_admits hexact fragment hadmits
      | true => exact exact_insert_of_admits hexact fragment hadmits
  | reader op hop => exact exact_reader hexact op hop

theorem exact_run (hexact : record.Exact) (moves : List (Move stream)) :
    (record.run moves).Exact := by
  induction moves generalizing record with
  | nil => exact hexact
  | cons move rest ih => exact ih (exact_step hexact move)

theorem capacity_step (record : Record stream) (move : Move stream) :
    (record.step move).reassembly.output.capacity = record.reassembly.output.capacity := by
  cases move with
  | insert fragment => exact capacity_insert _ _ _
  | reader op hop => exact Pipe.capacity_apply _ op

theorem capacity_run (record : Record stream) (moves : List (Move stream)) :
    (record.run moves).reassembly.output.capacity = record.reassembly.output.capacity := by
  induction moves generalizing record with
  | nil => rfl
  | cons move rest ih => exact (ih (record.step move)).trans (capacity_step record move)

end Record

-- After any fragments and any reads: the front of the stream has gone out, what was offered
-- is in and nothing else, the output waits for the first index that is not, and it is
-- closed exactly when the whole stream is out and its end was told.
theorem assembles_exactly (stream : List UInt8) (capacity : Nat) (moves : List (Move stream)) :
    let record := (Record.ofCapacity stream capacity).run moves
    let output := record.reassembly.output
    let runs := record.reassembly.held.runs
    output.capacity = capacity ∧
      (output.pushed ≤ stream.length ∧
        record.taken ++ output.buffer = stream.take output.pushed) ∧
      ({index | index < output.pushed ∨ ∃ run ∈ runs, run.start ≤ index ∧ index < run.stop} =
          record.offered ∧
        ∀ run ∈ runs, ∀ index byte, run.byteAt? index = some byte →
          stream[index]? = some byte) ∧
      IsLeast record.offeredᶜ output.pushed ∧
      (output.closed = true ↔ output.pushed = stream.length ∧ record.ended) := by
  intro record output runs
  have hexact : record.Exact := Record.exact_run (Record.exact_ofCapacity stream capacity) moves
  have hintact := hexact.assembles.intact
  refine ⟨Record.capacity_run _ moves, ⟨hexact.assembles.expected_le, ?_⟩,
    ⟨Set.ext hexact.holds_iff, hexact.assembles.piece⟩, ⟨?_, ?_⟩, hexact.closed_iff⟩
  · rw [hexact.taken_eq]
    exact hexact.assembles.take_append_buffer
  · exact mt (hexact.holds_iff output.pushed).mpr (not_holds_expected hintact)
  · intro index hmissing
    by_contra hlt
    exact hmissing ((hexact.holds_iff index).mp (.inl (Nat.lt_of_not_ge hlt)))

end UserTcp.Reassembly
