import UserTcp.Proofs.Reassembly.Assembles
import UserTcp.Proofs.Reassembly.Checked

namespace UserTcp

-- Runs that do not overlap have no more bytes than the room they lie in.
theorem Held.add_total_le (runs : List Run) (hnormal : Normal runs) (low high : Nat)
    (hle : low ≤ high) (hlow : ∀ run ∈ runs, low ≤ run.start)
    (hhigh : ∀ run ∈ runs, run.stop ≤ high) : low + total runs ≤ high := by
  induction runs generalizing low with
  | nil => exact hle
  | cons run rest ih =>
      obtain ⟨-, hlater, hrest⟩ := (normal_cons run rest).mp hnormal
      obtain ⟨hstart, -⟩ := List.forall_mem_cons.mp hlow
      obtain ⟨hstop, hstops⟩ := List.forall_mem_cons.mp hhigh
      have hbehind := ih hrest run.stop hstop (fun later hmem => Nat.le_of_lt (hlater later hmem))
        hstops
      rw [total_cons]
      simp only [Run.stop] at hbehind
      omega

namespace Reassembly

-- What happens to a reassembly: pieces come in, whatever they say and wherever they claim
-- the end to be, and readers work at the output.
inductive Event where
  | insert (piece : Run) (last : Bool)
  | reader (op : Pipe.Op) (hop : op.feeds = false)

def after (reassembly : Reassembly) : Event → Reassembly
  | .insert piece last => reassembly.insert piece last
  | .reader op _ => { reassembly with output := (reassembly.output.apply op).2 }

def afterAll (reassembly : Reassembly) (events : List Event) : Reassembly :=
  events.foldl after reassembly

@[simp] theorem capacity_after (reassembly : Reassembly) (event : Event) :
    (reassembly.after event).output.capacity = reassembly.output.capacity := by
  cases event with
  | insert piece last => exact capacity_insert _ _ _
  | reader op hop => exact Pipe.capacity_apply _ op

@[simp] theorem capacity_afterAll (reassembly : Reassembly) (events : List Event) :
    (reassembly.afterAll events).output.capacity = reassembly.output.capacity := by
  induction events generalizing reassembly with
  | nil => rfl
  | cons event rest ih => exact (ih _).trans (capacity_after reassembly event)

namespace Intact

variable {reassembly : Reassembly} {history : List UInt8}

theorem after (hintact : reassembly.Intact history) (event : Event) :
    ∃ longer, (reassembly.after event).Intact longer := by
  cases event with
  | insert piece last =>
      cases hadmits : reassembly.admits piece with
      | false => exact ⟨history, by rwa [Reassembly.after, insert_of_not_admits _ _ _ hadmits]⟩
      | true =>
          obtain ⟨longer, hlonger, -⟩ := hintact.insert piece last hadmits
          exact ⟨longer, hlonger⟩
  | reader op hop => exact ⟨history, hintact.apply op hop⟩

theorem afterAll (hintact : reassembly.Intact history) (events : List Event) :
    ∃ longer, (reassembly.afterAll events).Intact longer := by
  induction events generalizing reassembly history with
  | nil => exact ⟨history, hintact⟩
  | cons event rest ih =>
      obtain ⟨longer, hlonger⟩ := hintact.after event
      exact ih hlonger

theorem pushed_lt_start (hintact : reassembly.Intact history) (run : Run)
    (hmem : run ∈ reassembly.held.runs) : reassembly.output.pushed < run.start :=
  Nat.lt_of_le_of_ne (hintact.expected_le run hmem) (hintact.start_ne run hmem).symm

-- What is held comes after a missing byte, and that byte has a place of its own.
theorem pending_lt_free (hintact : reassembly.Intact history)
    (hne : reassembly.held.runs ≠ []) : reassembly.pending < reassembly.output.free := by
  obtain ⟨run, hmem⟩ := List.exists_mem_of_ne_nil _ hne
  have hstart := hintact.pushed_lt_start run hmem
  have hpos := Held.start_lt_stop run (hintact.normal.nonempty run hmem)
  have hstop := hintact.stop_le run hmem
  have htotal := Held.add_total_le reassembly.held.runs hintact.normal
    (reassembly.output.pushed + 1) reassembly.limit (by omega) hintact.pushed_lt_start
    hintact.stop_le
  rw [← hintact.count_eq] at htotal
  simp only [limit, expected, pending] at *
  omega

theorem pending_le_free (hintact : reassembly.Intact history) :
    reassembly.pending ≤ reassembly.output.free := by
  by_cases hempty : reassembly.held.runs = []
  · rw [pending, hintact.count_eq, hempty]
    exact Nat.zero_le _
  · exact Nat.le_of_lt (hintact.pending_lt_free hempty)

end Intact

-- Whatever comes in and is read out, the held runs are in order with gaps between them, behind
-- a gap and inside the window. Their bytes are counted, they have room in the output beside
-- those that wait there, and no step on the way counts below zero, cuts past the bytes that
-- there are or gives the output more than it takes.
theorem keeps_normal_form (capacity : Nat) (events : List Event) :
    let reassembly := (ofOutput (Pipe.empty capacity)).afterAll events
    let output := reassembly.output
    let runs := reassembly.held.runs
    output.capacity = capacity ∧
      ((∀ run ∈ runs, run.bytes ≠ []) ∧
        (runs.Pairwise fun first second => first.stop < second.start) ∧
        ∀ run ∈ runs, output.pushed < run.start ∧ run.stop ≤ output.popped + capacity) ∧
      (reassembly.pending = Held.total runs ∧
        reassembly.pending + output.buffered ≤ capacity ∧
        (runs ≠ [] → reassembly.pending + output.buffered < capacity)) ∧
      ∀ piece last, reassembly.insert? piece last = some (reassembly.insert piece last) := by
  intro reassembly output runs
  have hcapacity : output.capacity = capacity := capacity_afterAll _ events
  obtain ⟨history, hintact⟩ : ∃ history, reassembly.Intact history :=
    (intact_ofOutput capacity).afterAll events
  have hfits : output.buffered ≤ capacity := hcapacity ▸ hintact.output.buffered_le
  have hfree : output.free = capacity - output.buffered := by rw [Pipe.free, hcapacity]
  have hpending : reassembly.pending ≤ output.free := hintact.pending_le_free
  refine ⟨hcapacity, ⟨hintact.normal.nonempty, hintact.normal.apart, fun run hmem =>
    ⟨hintact.pushed_lt_start run hmem, ?_⟩⟩, ⟨hintact.count_eq, ?_, fun hne => ?_⟩,
    hintact.insert?_eq⟩
  · rw [← hcapacity, ← hintact.limit_eq]
    exact hintact.stop_le run hmem
  · omega
  · have hless : reassembly.pending < output.free := hintact.pending_lt_free hne
    omega

end Reassembly

end UserTcp
