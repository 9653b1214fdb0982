import UserTcp.Proofs.Reassembly.Content

namespace UserTcp.Reassembly

@[simp] theorem closed_releaseRuns (runs : List Run) (count : Nat) (output : Pipe) :
    (releaseRuns runs count output).2.closed = output.closed := by
  fun_induction releaseRuns runs count output with
  | case1 count output => rfl
  | case2 run rest count output hstart ih => exact ih
  | case3 run rest count output hstart => rfl

theorem gains_releaseRuns (runs : List Run) (count : Nat) (output : Pipe) :
    Pipe.Gains output (releaseRuns runs count output).2 := by
  fun_induction releaseRuns runs count output with
  | case1 count output => exact .refl output
  | case2 run rest count output hstart ih => exact (output.gains_push run.bytes).trans ih
  | case3 run rest count output hstart => exact .refl output

theorem releaseRuns_of_lt (runs : List Run) (count : Nat) (output : Pipe)
    (hgap : ∀ run ∈ runs, output.pushed < run.start) :
    releaseRuns runs count output = (⟨runs, count⟩, output) := by
  cases runs with
  | nil => rfl
  | cons run rest =>
      have hlt := hgap run List.mem_cons_self
      rw [releaseRuns, if_neg (by omega)]

-- A run that continues the output and fits goes out whole, and the next one stays behind
-- the gap between the two.
theorem releaseRuns_of_start_eq (run : Run) (rest : List Run) (count : Nat) (output : Pipe)
    (hstart : run.start = output.pushed) (hopen : output.closed = false)
    (hfits : run.bytes.length ≤ output.free) (hlater : ∀ later ∈ rest, run.stop < later.start) :
    releaseRuns (run :: rest) count output =
      (⟨rest, count - run.bytes.length⟩, output.push run.bytes) := by
  rw [releaseRuns, if_pos hstart]
  apply releaseRuns_of_lt
  intro later hmem
  have hgap := hlater later hmem
  simp only [Pipe.push, output.accepted_of_fits run.bytes hopen hfits]
  simp only [Run.stop] at hgap
  omega

theorem contentAt?_append (history : List UInt8) (run : Run) (rest : List Run)
    (hstart : run.start = history.length) (index : Nat) :
    contentAt? (history ++ run.bytes) rest index = contentAt? history (run :: rest) index := by
  have hmove : (history ++ run.bytes)[index]? = history[index]?.or (run.byteAt? index) := by
    by_cases hlt : index < history.length
    · rw [List.getElem?_append_left hlt, List.getElem?_eq_getElem hlt, Option.some_or]
    · have hnone : history[index]? = none := List.getElem?_eq_none (by omega)
      rw [List.getElem?_append_right (by omega), hnone, Option.none_or, Run.byteAt?,
        if_neg (by omega), hstart]
  rw [contentAt?, contentAt?, hmove, Held.byteAt?_cons, Option.or_assoc]

-- The first run can go out when it starts where the output ends, and then no other can.
theorem Stored.push_first {output : Pipe} {run : Run} {rest : List Run} {count : Nat}
    {finalIndex : Option Nat} {history : List UInt8}
    (hstored : (Reassembly.mk output ⟨run :: rest, count⟩ finalIndex).Stored history)
    (hopen : output.closed = false) (hstart : run.start = output.pushed) :
    releaseRuns (run :: rest) count output =
        (⟨rest, count - run.bytes.length⟩, output.push run.bytes) ∧
      (Reassembly.mk (output.push run.bytes) ⟨rest, count - run.bytes.length⟩ finalIndex).Intact
        (history ++ run.bytes) := by
  obtain ⟨hne, hlater, hrest⟩ := (Held.normal_cons run rest).mp hstored.normal
  have hstop : run.stop ≤ output.pushed + output.free := hstored.stop_le run List.mem_cons_self
  have hfits : run.bytes.length ≤ output.free := by
    simp only [Run.stop] at hstop
    omega
  have haccepted := output.accepted_of_fits run.bytes hopen hfits
  have hcarries := hstored.output.push run.bytes
  rw [haccepted] at hcarries
  have hpushed : (output.push run.bytes).pushed = run.stop := by
    simp only [Pipe.push, haccepted, Run.stop, hstart]
  have hlimit : output.pushed + output.free =
      (output.push run.bytes).pushed + (output.push run.bytes).free := by
    simp only [Pipe.push, haccepted, Pipe.free, Pipe.buffered, List.length_append] at *
    omega
  have hcount : count = run.bytes.length + Held.total rest := hstored.count_eq
  refine ⟨releaseRuns_of_start_eq run rest count output hstart hopen hfits hlater,
    ⟨hcarries, hrest, ?_, ?_, ?_⟩, ?_⟩
  · change count - run.bytes.length = Held.total rest
    omega
  · intro later hmem
    have hgap := hlater later hmem
    change (output.push run.bytes).pushed ≤ later.start
    omega
  · intro later hmem
    have hroom : later.stop ≤ output.pushed + output.free :=
      hstored.stop_le later (List.mem_cons_of_mem run hmem)
    exact Nat.le_trans hroom (Nat.le_of_eq hlimit)
  · intro later hmem
    have hgap := hlater later hmem
    change later.start ≠ (output.push run.bytes).pushed
    omega

-- Releasing changes where the bytes are, not what they are.
theorem Stored.release {reassembly : Reassembly} {history : List UInt8}
    (hstored : reassembly.Stored history) (hopen : reassembly.output.closed = false) :
    ∃ longer, reassembly.release.Intact longer ∧
      ∀ index, contentAt? longer reassembly.release.held.runs index =
        contentAt? history reassembly.held.runs index := by
  obtain ⟨output, ⟨runs, count⟩, finalIndex⟩ := reassembly
  have hpushed : output.pushed = history.length := hstored.output.pushed_eq
  have hexpected : ∀ run ∈ runs, output.pushed ≤ run.start := hstored.expected_le
  by_cases hgap : ∀ run ∈ runs, output.pushed < run.start
  · simp only [Reassembly.release, releaseRuns_of_lt runs count output hgap]
    refine ⟨history, ⟨hstored, ?_⟩, fun index => rfl⟩
    intro run hmem
    exact Nat.ne_of_gt (hgap run hmem)
  · -- without a gap it is the first run that starts right here
    cases runs with
    | nil => exact absurd (fun run hmem => absurd hmem List.not_mem_nil) hgap
    | cons run rest =>
        obtain ⟨hne, hlater, -⟩ := (Held.normal_cons run rest).mp hstored.normal
        have hpos := Held.start_lt_stop run hne
        have hle := hexpected run List.mem_cons_self
        have hstart : run.start = output.pushed := by
          by_contra hstart
          apply hgap
          intro other hmem
          rcases List.mem_cons.mp hmem with rfl | hmem
          · omega
          · have hlt := hlater other hmem
            omega
        obtain ⟨hrelease, hintact⟩ := hstored.push_first hopen hstart
        simp only [Reassembly.release, hrelease]
        exact ⟨history ++ run.bytes, hintact, contentAt?_append history run rest (by omega)⟩

@[simp] theorem output_noteFinal (reassembly : Reassembly) (piece : Run) (last : Bool) :
    (reassembly.noteFinal piece last).output = reassembly.output := by
  unfold noteFinal
  split <;> rfl

@[simp] theorem held_noteFinal (reassembly : Reassembly) (piece : Run) (last : Bool) :
    (reassembly.noteFinal piece last).held = reassembly.held := by
  unfold noteFinal
  split <;> rfl

@[simp] theorem held_closeAtFinal (reassembly : Reassembly) :
    reassembly.closeAtFinal.held = reassembly.held := by
  unfold closeAtFinal
  split <;> rfl

@[simp] theorem finalIndex_closeAtFinal (reassembly : Reassembly) :
    reassembly.closeAtFinal.finalIndex = reassembly.finalIndex := by
  unfold closeAtFinal
  split <;> rfl

@[simp] theorem expected_closeAtFinal (reassembly : Reassembly) :
    reassembly.closeAtFinal.expected = reassembly.expected := by
  unfold closeAtFinal
  split <;> rfl

@[simp] theorem finalIndex_accept (reassembly : Reassembly) (piece : Run) :
    (reassembly.accept piece).finalIndex = reassembly.finalIndex := by
  simp only [accept]
  split <;> rfl

@[simp] theorem closed_accept (reassembly : Reassembly) (piece : Run) :
    (reassembly.accept piece).output.closed = reassembly.output.closed := by
  simp only [accept]
  split
  · rfl
  · exact closed_releaseRuns _ _ _

theorem gains_accept (reassembly : Reassembly) (piece : Run) :
    Pipe.Gains reassembly.output (reassembly.accept piece).output := by
  simp only [accept]
  split
  · exact .refl _
  · exact gains_releaseRuns _ _ _

theorem gains_closeAtFinal (reassembly : Reassembly) :
    Pipe.Gains reassembly.output reassembly.closeAtFinal.output := by
  unfold closeAtFinal
  split
  · exact reassembly.output.gains_close
  · exact .refl _

theorem Intact.of_output_held {reassembly other : Reassembly} {history : List UInt8}
    (hintact : reassembly.Intact history) (houtput : other.output = reassembly.output)
    (hheld : other.held = reassembly.held) : other.Intact history := by
  obtain ⟨output, held, finalIndex⟩ := other
  obtain rfl : output = reassembly.output := houtput
  obtain rfl : held = reassembly.held := hheld
  exact ⟨⟨hintact.output, hintact.normal, hintact.count_eq, hintact.expected_le,
    hintact.stop_le⟩, hintact.start_ne⟩

theorem Intact.closeAtFinal {reassembly : Reassembly} {history : List UInt8}
    (hintact : reassembly.Intact history) : reassembly.closeAtFinal.Intact history := by
  unfold Reassembly.closeAtFinal
  split
  · exact ⟨⟨hintact.output.close, hintact.normal, hintact.count_eq, hintact.expected_le,
      hintact.stop_le⟩, hintact.start_ne⟩
  · exact hintact

theorem Intact.accept {reassembly : Reassembly} {history : List UInt8}
    (hintact : reassembly.Intact history) (hopen : reassembly.output.closed = false)
    (piece : Run) : ∃ longer, (reassembly.accept piece).Intact longer ∧
      ∀ index, contentAt? longer (reassembly.accept piece).held.runs index =
        contentAt? history (reassembly.runsWith piece) index := by
  by_cases hempty : (reassembly.clip piece).bytes = []
  · simp only [Reassembly.accept, runsWith, hempty, ↓reduceIte]
    exact ⟨history, hintact, fun index => rfl⟩
  · simp only [Reassembly.accept, runsWith, hempty, ↓reduceIte]
    exact (hintact.toStored.store piece hempty).release hopen

theorem admits_iff (reassembly : Reassembly) (piece : Run) :
    reassembly.admits piece = true ↔ reassembly.output.closed = false ∧
      0 < reassembly.output.free ∧ piece.start < reassembly.limit := by
  simp only [admits, Bool.and_eq_true, Bool.not_eq_true', bne_iff_ne, decide_eq_true_eq,
    Nat.pos_iff_ne_zero, ne_eq, and_assoc]

theorem insert_of_admits (reassembly : Reassembly) (piece : Run) (last : Bool)
    (hadmits : reassembly.admits piece = true) :
    reassembly.insert piece last =
      ((reassembly.noteFinal piece last).accept piece).closeAtFinal :=
  if_pos hadmits

theorem insert_of_not_admits (reassembly : Reassembly) (piece : Run) (last : Bool)
    (hadmits : reassembly.admits piece = false) : reassembly.insert piece last = reassembly :=
  if_neg (by simp [hadmits])

theorem gains_insert (reassembly : Reassembly) (piece : Run) (last : Bool) :
    Pipe.Gains reassembly.output (reassembly.insert piece last).output := by
  cases hadmits : reassembly.admits piece with
  | false =>
      rw [insert_of_not_admits reassembly piece last hadmits]
      exact .refl _
  | true =>
      have haccept := (reassembly.noteFinal piece last).gains_accept piece
      rw [output_noteFinal] at haccept
      rw [insert_of_admits reassembly piece last hadmits]
      exact haccept.trans (gains_closeAtFinal _)

@[simp] theorem popped_insert (reassembly : Reassembly) (piece : Run) (last : Bool) :
    (reassembly.insert piece last).output.popped = reassembly.output.popped :=
  (reassembly.gains_insert piece last).popped_eq

@[simp] theorem capacity_insert (reassembly : Reassembly) (piece : Run) (last : Bool) :
    (reassembly.insert piece last).output.capacity = reassembly.output.capacity :=
  (reassembly.gains_insert piece last).capacity_eq

-- An admitted piece ends up among what was held before, and what can go out has gone out.
theorem Intact.insert {reassembly : Reassembly} {history : List UInt8}
    (hintact : reassembly.Intact history) (piece : Run) (last : Bool)
    (hadmits : reassembly.admits piece = true) :
    ∃ longer, (reassembly.insert piece last).Intact longer ∧
      ∀ index, contentAt? longer (reassembly.insert piece last).held.runs index =
        contentAt? history (reassembly.runsWith piece) index := by
  have hnoted : (reassembly.noteFinal piece last).Intact history :=
    hintact.of_output_held (output_noteFinal _ _ _) (held_noteFinal _ _ _)
  have hopen : (reassembly.noteFinal piece last).output.closed = false := by
    rw [output_noteFinal]
    exact ((admits_iff reassembly piece).mp hadmits).1
  have hruns : (reassembly.noteFinal piece last).runsWith piece = reassembly.runsWith piece := by
    unfold Reassembly.noteFinal
    split <;> rfl
  obtain ⟨longer, haccepted, hcontent⟩ := hnoted.accept hopen piece
  rw [insert_of_admits reassembly piece last hadmits]
  refine ⟨longer, haccepted.closeAtFinal, fun index => ?_⟩
  rw [held_closeAtFinal, hcontent, hruns]

theorem finalIndex_insert (reassembly : Reassembly) (piece : Run) (last : Bool)
    (hadmits : reassembly.admits piece = true) :
    (reassembly.insert piece last).finalIndex =
      if last && decide (piece.stop ≤ reassembly.limit) then some piece.stop
      else reassembly.finalIndex := by
  rw [insert_of_admits reassembly piece last hadmits, finalIndex_closeAtFinal, finalIndex_accept,
    noteFinal]
  split <;> rfl

theorem finalIndex_insert_cases (reassembly : Reassembly) (piece : Run) (last : Bool)
    (index : Nat) (hfinal : (reassembly.insert piece last).finalIndex = some index) :
    reassembly.finalIndex = some index ∨ last = true ∧ index = piece.stop := by
  cases hadmits : reassembly.admits piece with
  | false =>
      rw [insert_of_not_admits reassembly piece last hadmits] at hfinal
      exact .inl hfinal
  | true =>
      rw [finalIndex_insert reassembly piece last hadmits] at hfinal
      split at hfinal
      · rename_i hfits
        exact .inr ⟨(Bool.and_eq_true_iff.mp hfits).1, (Option.some.inj hfinal).symm⟩
      · exact .inl hfinal

-- After an admitted piece the output is closed exactly when it has reached the known end.
theorem closed_insert (reassembly : Reassembly) (piece : Run) (last : Bool)
    (hadmits : reassembly.admits piece = true) :
    (reassembly.insert piece last).output.closed = true ↔
      (reassembly.insert piece last).finalIndex =
        some (reassembly.insert piece last).expected := by
  rw [insert_of_admits reassembly piece last hadmits, finalIndex_closeAtFinal,
    expected_closeAtFinal, closeAtFinal]
  split
  · rename_i hfinal
    exact ⟨fun _ => hfinal, fun _ => rfl⟩
  · rename_i hfinal
    rw [closed_accept, output_noteFinal, ((admits_iff reassembly piece).mp hadmits).1]
    exact ⟨fun h => absurd h Bool.false_ne_true, fun h => absurd h hfinal⟩

end UserTcp.Reassembly
