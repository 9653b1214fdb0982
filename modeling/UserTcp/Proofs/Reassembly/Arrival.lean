import UserTcp.Proofs.Reassembly.Exactness
import UserTcp.Proofs.Reassembly.Representation
import Mathlib.Tactic.Tauto

namespace UserTcp.Reassembly

-- A part of a stream that is called the last one exactly when it ends where the stream ends.
structure Part (stream : List UInt8) where
  start : Nat
  stop : Nat
  start_le : start ≤ stop
  stop_le : stop ≤ stream.length

-- A turn in the life of a reassembly that is offered parts of one stream only.
inductive Turn (stream : List UInt8) where
  | part (part : Part stream)
  | reader (op : Pipe.Op) (hop : op.feeds = false)

variable {stream : List UInt8}

def Part.fragment (part : Part stream) : Fragment stream where
  start := part.start
  stop := part.stop
  last := decide (part.stop = stream.length)
  start_le := part.start_le
  stop_le := part.stop_le
  stop_eq := of_decide_eq_true

def Part.move (part : Part stream) : Move stream :=
  .insert part.fragment

def Turn.move : Turn stream → Move stream
  | .part piece => piece.move
  | .reader op hop => .reader op hop

def Move.event : Move stream → Event
  | .insert fragment => .insert fragment.run fragment.last
  | .reader op hop => .reader op hop

def Part.event (part : Part stream) : Event :=
  part.move.event

def Turn.event (turn : Turn stream) : Event :=
  turn.move.event

-- The held runs have the bytes of the stream at the indices that are in and have not gone out.
theorem Assembles.byteAt?_held_eq_some {reassembly : Reassembly}
    (hassembles : reassembly.Assembles stream) (index : Nat) (byte : UInt8) :
    Held.byteAt? reassembly.held.runs index = some byte ↔
      reassembly.expected ≤ index ∧ reassembly.Holds index ∧ stream[index]? = some byte := by
  have hnormal := hassembles.intact.normal
  constructor
  · intro hbyte
    obtain ⟨run, hmem, hrun⟩ := (Held.byteAt?_eq_some _ hnormal index byte).mp hbyte
    have hin := (run.isSome_byteAt? index).mp (by rw [hrun]; rfl)
    exact ⟨(hassembles.intact.expected_le run hmem).trans hin.1, .inr ⟨run, hmem, hin⟩,
      hassembles.piece run hmem index byte hrun⟩
  · rintro ⟨hle, hout | ⟨run, hmem, hin⟩, hbyte⟩
    · omega
    · obtain ⟨found, hfound⟩ := Option.isSome_iff_exists.mp ((run.isSome_byteAt? index).mpr hin)
      have hsame := hassembles.piece run hmem index found hfound
      rw [hbyte] at hsame
      exact (Held.byteAt?_eq_some _ hnormal index byte).mpr ⟨run, hmem, hfound.trans hsame.symm⟩

namespace Record

variable {record other : Record stream}

theorem reassembly_run (record : Record stream) (moves : List (Move stream)) :
    (record.run moves).reassembly = record.reassembly.afterAll (moves.map Move.event) := by
  induction moves generalizing record with
  | nil => rfl
  | cons move rest ih =>
      have hstep : (record.step move).reassembly = record.reassembly.after move.event := by
        cases move <;> rfl
      rw [List.map_cons, afterAll, List.foldl_cons, ← hstep]
      exact ih (record.step move)

-- The last byte of the stream came with word of the end.
structure Settled (record : Record stream) : Prop extends Exact record where
  ended_of_holds : ∀ index, record.reassembly.Holds index → index + 1 = stream.length →
    record.ended

theorem settled_ofCapacity (stream : List UInt8) (capacity : Nat) :
    (ofCapacity stream capacity).Settled where
  toExact := exact_ofCapacity stream capacity
  ended_of_holds := by
    intro index hholds
    have hnone := ((exact_ofCapacity stream capacity).holds_iff index).mp hholds
    exact absurd hnone (Set.notMem_empty index)

-- A part at the end of the stream that has room is not admitted only when the end is known.
theorem Settled.ended_of_not_admits (hsettled : record.Settled) (part : Part stream)
    (hnot : record.reassembly.admits part.fragment.run = false)
    (hstart : part.start < record.reassembly.limit)
    (hroom : stream.length ≤ record.reassembly.limit) : record.ended := by
  have hadmits := mt (admits_iff record.reassembly part.fragment.run).mpr (by simp [hnot])
  by_cases hclosed : record.reassembly.output.closed = true
  · exact (hsettled.closed_iff.mp hclosed).2
  · -- without free room the whole stream has gone out, and it is not empty
    have hfree : ¬ 0 < record.reassembly.output.free := fun hfree =>
      hadmits ⟨Bool.eq_false_of_not_eq_true hclosed, hfree, hstart⟩
    have hpart := part.start_le
    have hstop := part.stop_le
    have hall := hsettled.assembles.expected_le
    simp only [limit] at hstart hroom
    exact hsettled.ended_of_holds (stream.length - 1) (.inl (by omega)) (by omega)

theorem Settled.ended_part_iff (hsettled : record.Settled) (part : Part stream) :
    (record.step part.move).ended ↔ record.ended ∨ part.stop = stream.length ∧
      part.start < record.reassembly.limit ∧ stream.length ≤ record.reassembly.limit := by
  have hended := ended_insert record part.fragment
  have hlast : part.fragment.last = true ↔ part.stop = stream.length := decide_eq_true_iff
  rw [hlast] at hended
  refine hended.trans ⟨?_, ?_⟩
  · rintro (hended | ⟨hadmits, hstop, hroom⟩)
    · exact .inl hended
    · exact .inr ⟨hstop, ((admits_iff _ _).mp hadmits).2.2, hroom⟩
  · rintro (hended | ⟨hstop, hstart, hroom⟩)
    · exact .inl hended
    · cases hadmits : record.reassembly.admits part.fragment.run with
      | false => exact .inl (hsettled.ended_of_not_admits part hadmits hstart hroom)
      | true => exact .inr ⟨rfl, hstop, hroom⟩

theorem settled_part (hsettled : record.Settled) (part : Part stream) :
    (record.step part.move).Settled where
  toExact := exact_step hsettled.toExact part.move
  ended_of_holds := by
    intro index hholds hindex
    have hoffered := (exact_step hsettled.toExact part.move).holds_iff index
    rw [Part.move, mem_offered_insert hsettled.toExact] at hoffered
    rw [hsettled.ended_part_iff part]
    rcases hoffered.mp hholds with hold | ⟨hstart, hstop, hroom⟩
    · exact .inl (hsettled.ended_of_holds index ((hsettled.holds_iff index).mpr hold) hindex)
    · have hle := part.stop_le
      have hpart : part.start ≤ index := hstart
      have hlast : index < part.stop := hstop
      exact .inr ⟨by omega, by omega, by omega⟩

theorem settled_reader (hsettled : record.Settled) (op : Pipe.Op) (hop : op.feeds = false) :
    (record.step (.reader op hop)).Settled where
  toExact := exact_reader hsettled.toExact op hop
  ended_of_holds := by
    intro index hholds
    have hoffered := ((exact_reader hsettled.toExact op hop).holds_iff index).mp hholds
    exact hsettled.ended_of_holds index ((hsettled.holds_iff index).mpr hoffered)

theorem settled_turn (hsettled : record.Settled) (turn : Turn stream) :
    (record.step turn.move).Settled := by
  cases turn with
  | part piece => exact settled_part hsettled piece
  | reader op hop => exact settled_reader hsettled op hop

theorem settled_turns (hsettled : record.Settled) (turns : List (Turn stream)) :
    (record.run (turns.map Turn.move)).Settled := by
  induction turns generalizing record with
  | nil => exact hsettled
  | cons turn rest ih => exact ih (settled_turn hsettled turn)

-- Parts take nothing out, so the room ends where it did.
theorem gains_parts (record : Record stream) (parts : List (Part stream)) :
    Pipe.Gains record.reassembly.output
      (record.run (parts.map Part.move)).reassembly.output := by
  induction parts generalizing record with
  | nil => exact .refl _
  | cons part rest ih => exact (gains_insert _ _ _).trans (ih (record.step part.move))

theorem limit_part (hsettled : record.Settled) (part : Part stream) :
    (record.step part.move).reassembly.limit = record.reassembly.limit := by
  rw [(settled_part hsettled part).assembles.intact.limit_eq, hsettled.assembles.intact.limit_eq]
  exact congrArg₂ (· + ·) (popped_insert _ _ _) (capacity_insert _ _ _)

-- What parts bring can be told from which parts there are.
theorem mem_offered_parts_iff (hsettled : record.Settled) (parts : List (Part stream))
    (index : Nat) :
    index ∈ (record.run (parts.map Part.move)).offered ↔ index ∈ record.offered ∨
      ∃ part ∈ parts, part.start ≤ index ∧ index < part.stop ∧
        index < record.reassembly.limit := by
  induction parts generalizing record with
  | nil => simp [run]
  | cons part rest ih =>
      have hrest := ih (settled_part hsettled part)
      rw [limit_part hsettled part, Part.move, mem_offered_insert hsettled.toExact, or_assoc] at hrest
      simp only [List.mem_cons, exists_eq_or_imp]
      exact hrest

theorem ended_parts_iff (hsettled : record.Settled) (parts : List (Part stream)) :
    (record.run (parts.map Part.move)).ended ↔ record.ended ∨
      ∃ part ∈ parts, part.stop = stream.length ∧ part.start < record.reassembly.limit ∧
        stream.length ≤ record.reassembly.limit := by
  induction parts generalizing record with
  | nil => simp [run]
  | cons part rest ih =>
      have hrest := ih (settled_part hsettled part)
      rw [limit_part hsettled part, hsettled.ended_part_iff part, or_assoc] at hrest
      simp only [List.mem_cons, exists_eq_or_imp]
      exact hrest

-- The next index that the output waits for is the first that is not in.
theorem expected_le_of_offered (hexact : record.Exact) (hother : other.Exact)
    (hoffered : ∀ index, index ∈ record.offered ↔ index ∈ other.offered) :
    record.reassembly.expected ≤ other.reassembly.expected := by
  by_contra hlt
  apply not_holds_expected hother.assembles.intact
  rw [hother.holds_iff, ← hoffered, ← hexact.holds_iff]
  exact .inl (Nat.lt_of_not_ge hlt)

theorem finalIndex_eq_some_iff (hexact : record.Exact) (index : Nat) :
    record.reassembly.finalIndex = some index ↔ index = stream.length ∧ record.ended := by
  constructor
  · intro hfinal
    obtain rfl := hexact.final_eq index hfinal
    exact ⟨rfl, hexact.final_iff.mp hfinal⟩
  · rintro ⟨rfl, hended⟩
    exact hexact.final_iff.mpr hended

-- What was offered, the news of the end and what readers did decide everything.
theorem reassembly_eq_of_offered (hexact : record.Exact) (hother : other.Exact)
    (hoffered : ∀ index, index ∈ record.offered ↔ index ∈ other.offered)
    (hended : record.ended ↔ other.ended)
    (hgains : Pipe.Gains record.reassembly.output other.reassembly.output) :
    record.reassembly = other.reassembly := by
  have hexpected : record.reassembly.expected = other.reassembly.expected := Nat.le_antisymm
    (expected_le_of_offered hexact hother hoffered)
    (expected_le_of_offered hother hexact fun index => (hoffered index).symm)
  have hruns : record.reassembly.held.runs = other.reassembly.held.runs := by
    apply Held.eq_of_byteAt?_eq _ _ hexact.assembles.intact.normal hother.assembles.intact.normal
    intro index
    apply Option.ext
    intro byte
    rw [hexact.assembles.byteAt?_held_eq_some, hother.assembles.byteAt?_held_eq_some, hexpected,
      hexact.holds_iff, hother.holds_iff, hoffered]
  have hcount : record.reassembly.held.count = other.reassembly.held.count := by
    rw [hexact.assembles.intact.count_eq, hother.assembles.intact.count_eq, hruns]
  have hheld : record.reassembly.held = other.reassembly.held :=
    congrArg₂ Held.mk hruns hcount
  have houtput : record.reassembly.output = other.reassembly.output := by
    apply hgains.eq_of_buffer
    · rw [hexact.assembles.intact.output.buffer_eq, hother.assembles.intact.output.buffer_eq,
        hexpected, hgains.popped_eq]
    · exact hexpected
    · rw [Bool.eq_iff_iff, hexact.closed_iff, hother.closed_iff, hexpected, hended]
  have hfinal : record.reassembly.finalIndex = other.reassembly.finalIndex := by
    apply Option.ext
    intro index
    rw [finalIndex_eq_some_iff hexact, finalIndex_eq_some_iff hother, hended]
  calc
    record.reassembly = ⟨other.reassembly.output, other.reassembly.held,
        other.reassembly.finalIndex⟩ := by rw [← houtput, ← hheld, ← hfinal]
    _ = other.reassembly := rfl

end Record

-- Parts of a stream lead to the same state in whatever order they come and however often each
-- of them comes.
theorem assembles_in_any_order (stream : List UInt8) (capacity : Nat) (turns : List (Turn stream))
    (parts again : List (Part stream)) (hsame : ∀ part, part ∈ again ↔ part ∈ parts) :
    let reached := (ofOutput (Pipe.empty capacity)).afterAll (turns.map Turn.event)
    reached.afterAll (again.map Part.event) = reached.afterAll (parts.map Part.event) := by
  intro reached
  have hsettled := Record.settled_turns (Record.settled_ofCapacity stream capacity) turns
  have hreached : reached =
      ((Record.ofCapacity stream capacity).run (turns.map Turn.move)).reassembly := by
    rw [Record.reassembly_run, List.map_map]
    rfl
  generalize (Record.ofCapacity stream capacity).run (turns.map Turn.move) = record at *
  have hafter : ∀ list : List (Part stream),
      reached.afterAll (list.map Part.event) = (record.run (list.map Part.move)).reassembly := by
    intro list
    rw [Record.reassembly_run, List.map_map, hreached]
    rfl
  have hrun : ∀ list : List (Part stream), (record.run (list.map Part.move)).Settled := by
    intro list
    have hlist := Record.settled_turns hsettled (list.map Turn.part)
    rwa [List.map_map] at hlist
  rw [hafter again, hafter parts]
  apply Record.reassembly_eq_of_offered (hrun again).toExact (hrun parts).toExact
  · intro index
    simp only [Record.mem_offered_parts_iff hsettled, hsame]
  · simp only [Record.ended_parts_iff hsettled, hsame]
  · exact (record.gains_parts again).symm.trans (record.gains_parts parts)

-- The end of the stream comes first and twice, and room for it only because of a read.
theorem assembles_in_any_order_backwards :
    let first : Part [1, 2, 3, 4] := ⟨0, 1, by decide, by decide⟩
    let front : Part [1, 2, 3, 4] := ⟨1, 3, by decide, by decide⟩
    let back : Part [1, 2, 3, 4] := ⟨2, 4, by decide, by decide⟩
    let reached := (ofOutput (Pipe.empty 3)).afterAll
      ([Turn.part first, .reader (.pop 1) rfl].map Turn.event)
    (∀ part, part ∈ [back, front, back] ↔ part ∈ [front, back]) ∧
      reached.afterAll ([back, front, back].map Part.event) =
        reached.afterAll ([front, back].map Part.event) ∧
      (reached.afterAll ([front, back].map Part.event)).output =
        ⟨3, [2, 3, 4], 4, 1, true, false⟩ := by
  intro first front back reached
  have hsame : ∀ part, part ∈ [back, front, back] ↔ part ∈ [front, back] := by
    intro part
    simp only [List.mem_cons, List.not_mem_nil, or_false]
    tauto
  exact ⟨hsame, assembles_in_any_order [1, 2, 3, 4] 3 _ [front, back] [back, front, back] hsame,
    by decide⟩

end UserTcp.Reassembly
