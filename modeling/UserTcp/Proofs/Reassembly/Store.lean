import UserTcp.Proofs.Reassembly.Runs

namespace UserTcp.Held

theorem start_of_mem_gather (run : Run) (runs : List Run) (count : Nat) (held : Run)
    (hmem : held ∈ (gather run runs count).runs) : ∃ old ∈ run :: runs, old.start = held.start := by
  fun_induction gather run runs count with
  | case1 run count => exact ⟨held, hmem, rfl⟩
  | case2 run next rest count htouch ih =>
      obtain ⟨old, hold, hstart⟩ := ih hmem
      rcases List.mem_cons.mp hold with rfl | hold
      · exact ⟨run, List.mem_cons_self, hstart⟩
      · exact ⟨old, List.mem_cons_of_mem run (List.mem_cons_of_mem next hold), hstart⟩
  | case3 run next rest count htouch => exact ⟨held, hmem, rfl⟩

theorem byteAt?_gather (run : Run) (runs : List Run) (count : Nat)
    (hafter : ∀ later ∈ runs, run.start ≤ later.start) (index : Nat) :
    byteAt? (gather run runs count).runs index = (run.byteAt? index).or (byteAt? runs index) := by
  fun_induction gather run runs count with
  | case1 run count => exact byteAt?_cons run [] index
  | case2 run next rest count htouch ih =>
      obtain ⟨hnext, hrest⟩ := List.forall_mem_cons.mp hafter
      rw [ih hrest, run.byteAt?_extend next hnext htouch, Option.or_assoc, byteAt?_cons]
  | case3 run next rest count htouch => exact byteAt?_cons run (next :: rest) index

theorem normal_gather (run : Run) (runs : List Run) (count : Nat) (hne : run.bytes ≠ [])
    (hnormal : Normal runs) : Normal (gather run runs count).runs := by
  fun_induction gather run runs count with
  | case1 run count => exact (normal_cons run []).mpr ⟨hne, by simp, hnormal⟩
  | case2 run next rest count htouch ih =>
      exact ih (by simp [Run.extend, hne]) ((normal_cons next rest).mp hnormal).2.2
  | case3 run next rest count htouch =>
      obtain ⟨hnonempty, hlater, hrest⟩ := (normal_cons next rest).mp hnormal
      refine (normal_cons run (next :: rest)).mpr ⟨hne, ?_, hnormal⟩
      intro later hmem
      rcases List.mem_cons.mp hmem with rfl | hmem
      · omega
      · have hgap := hlater later hmem
        have hpos := start_lt_stop next hnonempty
        omega

-- The count stays ahead of the held bytes by what it was ahead of them before.
theorem count_gather (run : Run) (runs : List Run) (count base : Nat)
    (hcount : count = base + total runs) :
    (gather run runs count).count = base + total (gather run runs count).runs := by
  fun_induction gather run runs count with
  | case1 run count =>
      simp only [hcount, total_cons, total_nil]
      omega
  | case2 run next rest count htouch ih =>
      apply ih
      rw [hcount, total_cons]
      omega
  | case3 run next rest count htouch =>
      simp only [hcount, total_cons]
      omega

theorem start_of_mem_place (run : Run) (runs : List Run) (count : Nat) (held : Run)
    (hmem : held ∈ (place run runs count).runs) : ∃ old ∈ run :: runs, old.start = held.start := by
  fun_induction place run runs count with
  | case1 count => exact start_of_mem_gather run [] count held hmem
  | case2 first rest count hbefore placed ih =>
      rcases List.mem_cons.mp hmem with rfl | hmem
      · exact ⟨held, by simp, rfl⟩
      · obtain ⟨old, hold, hstart⟩ := ih hmem
        rcases List.mem_cons.mp hold with rfl | hold
        · exact ⟨old, List.mem_cons_self, hstart⟩
        · exact ⟨old, List.mem_cons_of_mem run (List.mem_cons_of_mem first hold), hstart⟩
  | case3 first rest count hbefore hahead =>
      exact start_of_mem_gather run (first :: rest) count held hmem
  | case4 first rest count hbefore hahead hinside =>
      exact ⟨held, List.mem_cons_of_mem run hmem, rfl⟩
  | case5 first rest count hbefore hahead hinside =>
      obtain ⟨old, hold, hstart⟩ := start_of_mem_gather (first.extend run) rest _ held hmem
      rcases List.mem_cons.mp hold with rfl | hold
      · exact ⟨first, by simp, hstart⟩
      · exact ⟨old, by simp [hold], hstart⟩

theorem normal_place (run : Run) (runs : List Run) (count : Nat) (hne : run.bytes ≠ [])
    (hnormal : Normal runs) : Normal (place run runs count).runs := by
  fun_induction place run runs count with
  | case1 count => exact normal_gather run [] count hne hnormal
  | case2 first rest count hbefore placed ih =>
      obtain ⟨hnonempty, hlater, hrest⟩ := (normal_cons first rest).mp hnormal
      refine (normal_cons first _).mpr ⟨hnonempty, ?_, ih hrest⟩
      intro held hmem
      obtain ⟨old, hold, hstart⟩ := start_of_mem_place run rest count held hmem
      rw [← hstart]
      rcases List.mem_cons.mp hold with rfl | hold
      · exact hbefore
      · exact hlater old hold
  | case3 first rest count hbefore hahead =>
      exact normal_gather run (first :: rest) count hne hnormal
  | case4 first rest count hbefore hahead hinside => exact hnormal
  | case5 first rest count hbefore hahead hinside =>
      obtain ⟨hnonempty, -, hrest⟩ := (normal_cons first rest).mp hnormal
      exact normal_gather (first.extend run) rest _ (by simp [Run.extend, hnonempty]) hrest

theorem count_place (run : Run) (runs : List Run) (count base : Nat)
    (hcount : count = base + total runs) :
    (place run runs count).count = base + total (place run runs count).runs := by
  fun_induction place run runs count generalizing base with
  | case1 count => exact count_gather run [] count base hcount
  | case2 first rest count hbefore placed ih =>
      have hplaced : placed.count = _ + total placed.runs :=
        ih (base + first.bytes.length) (by rw [hcount, total_cons]; omega)
      rw [hplaced, total_cons, Nat.add_assoc]
  | case3 first rest count hbefore hahead =>
      exact count_gather run (first :: rest) count base hcount
  | case4 first rest count hbefore hahead hinside => exact hcount
  | case5 first rest count hbefore hahead hinside =>
      apply count_gather
      rw [hcount, total_cons]
      omega

theorem count_store (held : Held) (run : Run) (hcount : held.count = total held.runs) :
    (held.store run).count = total (held.store run).runs := by
  have hplaced := count_place run held.runs held.count 0 (by rw [hcount, Nat.zero_add])
  rwa [Nat.zero_add] at hplaced

-- A place inside the first run, or right at its end, comes before all other runs.
theorem filter_start (first : Run) (rest : List Run) (place : Nat)
    (hnormal : Normal (first :: rest)) (hstart : first.start ≤ place) (hstop : place ≤ first.stop) :
    (first :: rest).filter (fun old => old.start ≤ place) = [first] ∧
      (first :: rest).filter (fun old => place < old.start) = rest := by
  obtain ⟨-, hlater, -⟩ := (normal_cons first rest).mp hnormal
  have hall : ∀ old ∈ rest, place < old.start := by
    intro old hmem
    have hgap := hlater old hmem
    omega
  have hnone : rest.filter (fun old => old.start ≤ place) = [] :=
    List.filter_eq_nil_iff.mpr (by simpa using hall)
  have hself : rest.filter (fun old => place < old.start) = rest :=
    List.filter_eq_self.mpr (by simpa using hall)
  simp only [List.filter_cons, hnone, hself, hstart, Nat.not_lt.mpr hstart, decide_true,
    decide_false, Bool.false_eq_true, ↓reduceIte, and_self]

-- Runs that start no later than the new one keep their bytes, and over the others the
-- bytes of the new one win.
theorem byteAt?_place (run : Run) (runs : List Run) (count : Nat) (hnormal : Normal runs)
    (index : Nat) :
    byteAt? (place run runs count).runs index =
      (byteAt? (runs.filter fun old => old.start ≤ run.start) index).or
        ((run.byteAt? index).or (byteAt? (runs.filter fun old => run.start < old.start) index)) := by
  fun_induction place run runs count with
  | case1 count => simp [gather]
  | case2 first rest count hbefore placed ih =>
      obtain ⟨hnonempty, -, hrest⟩ := (normal_cons first rest).mp hnormal
      have hstart := start_lt_stop first hnonempty
      have hle : first.start ≤ run.start := by omega
      have hplaced : byteAt? placed.runs index = _ := ih hrest
      simp only [byteAt?_cons, hplaced, List.filter_cons, decide_true, hle, Nat.not_lt.mpr hle,
        decide_false, Bool.false_eq_true, ↓reduceIte, Option.or_assoc]
  | case3 first rest count hbefore hahead =>
      obtain ⟨hnonempty, hlater, -⟩ := (normal_cons first rest).mp hnormal
      have hall : ∀ old ∈ first :: rest, run.start < old.start := by
        have hstart := start_lt_stop first hnonempty
        intro old hmem
        rcases List.mem_cons.mp hmem with rfl | hmem
        · exact hahead
        · have hgap := hlater old hmem
          omega
      rw [byteAt?_gather run _ count (fun old hmem => Nat.le_of_lt (hall old hmem)),
        List.filter_eq_nil_iff.mpr (by simpa using hall),
        List.filter_eq_self.mpr (by simpa using hall), byteAt?_nil, Option.none_or]
  | case4 first rest count hbefore hahead hinside =>
      have hsplit := filter_start first rest run.start hnormal (by omega) (by omega)
      rw [hsplit.1, hsplit.2, byteAt?_cons, byteAt?_cons, byteAt?_nil, Option.or_none]
      -- the run has no byte that the first one lacks
      cases hfirst : first.byteAt? index with
      | some byte => simp only [Option.some_or]
      | none =>
          have hout : run.byteAt? index = none := by
            rw [← Option.not_isSome_iff_eq_none, Run.isSome_byteAt?] at hfirst ⊢
            omega
          simp only [hout, Option.none_or]
  | case5 first rest count hbefore hahead hinside =>
      have hsplit := filter_start first rest run.start hnormal (by omega) (by omega)
      obtain ⟨-, hlater, -⟩ := (normal_cons first rest).mp hnormal
      have hafter : ∀ later ∈ rest, first.start ≤ later.start := by
        intro later hmem
        have hgap := hlater later hmem
        omega
      rw [hsplit.1, hsplit.2, byteAt?_cons, byteAt?_nil, Option.or_none,
        byteAt?_gather (first.extend run) rest _ hafter,
        first.byteAt?_extend run (by omega) (by omega), Option.or_assoc]

theorem isSome_byteAt?_place (run : Run) (runs : List Run) (count : Nat) (hnormal : Normal runs)
    (index : Nat) :
    (byteAt? (place run runs count).runs index).isSome ↔
      (run.byteAt? index).isSome ∨ (byteAt? runs index).isSome := by
  rw [byteAt?_place run runs count hnormal, Option.isSome_or, Option.isSome_or, Bool.or_eq_true,
    Bool.or_eq_true, isSome_byteAt?, isSome_byteAt?, isSome_byteAt?]
  constructor
  · rintro (⟨old, hmem, hin⟩ | hrun | ⟨old, hmem, hin⟩)
    · exact .inr ⟨old, List.mem_of_mem_filter hmem, hin⟩
    · exact .inl hrun
    · exact .inr ⟨old, List.mem_of_mem_filter hmem, hin⟩
  · rintro (hrun | ⟨old, hmem, hin⟩)
    · exact .inr (.inl hrun)
    · by_cases hstart : old.start ≤ run.start
      · exact .inl ⟨old, List.mem_filter.mpr ⟨hmem, decide_eq_true hstart⟩, hin⟩
      · exact .inr (.inr ⟨old, List.mem_filter.mpr ⟨hmem, decide_eq_true (by omega)⟩, hin⟩)

-- Storing goes no further than the new run and the old ones.
theorem stop_le_of_mem_place (run : Run) (runs : List Run) (count limit : Nat)
    (hne : run.bytes ≠ []) (hnormal : Normal runs) (hrun : run.stop ≤ limit)
    (hruns : ∀ old ∈ runs, old.stop ≤ limit) (held : Run)
    (hmem : held ∈ (place run runs count).runs) : held.stop ≤ limit := by
  have hpos := start_lt_stop held ((normal_place run runs count hne hnormal).nonempty held hmem)
  -- the last index of the run is one of the new run or of an old one
  have hlast := (isSome_byteAt?_place run runs count hnormal (held.stop - 1)).mp
    ((isSome_byteAt? _ _).mpr ⟨held, hmem, by omega, by omega⟩)
  rw [Run.isSome_byteAt?, isSome_byteAt?] at hlast
  rcases hlast with ⟨-, hlast⟩ | ⟨old, hold, -, hlast⟩
  · omega
  · have hstop := hruns old hold
    omega

theorem byteAt?_place_eq_some (run : Run) (runs : List Run) (count : Nat)
    (hnormal : Normal runs) (index : Nat) (byte : UInt8)
    (hbyte : byteAt? (place run runs count).runs index = some byte) :
    run.byteAt? index = some byte ∨ byteAt? runs index = some byte := by
  rw [byteAt?_place run runs count hnormal, Option.or_eq_some_iff, Option.or_eq_some_iff] at hbyte
  rw [byteAt?_eq_some runs hnormal]
  rcases hbyte with hbefore | ⟨-, hrun | ⟨-, hafter⟩⟩
  · obtain ⟨old, hmem, hold⟩ := exists_of_byteAt?_eq_some _ index byte hbefore
    exact .inr ⟨old, List.mem_of_mem_filter hmem, hold⟩
  · exact .inl hrun
  · obtain ⟨old, hmem, hold⟩ := exists_of_byteAt?_eq_some _ index byte hafter
    exact .inr ⟨old, List.mem_of_mem_filter hmem, hold⟩

end UserTcp.Held
