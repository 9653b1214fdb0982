import UserTcp.Reassembly.Held
import Mathlib.Data.List.Basic

namespace UserTcp

namespace Run

def byteAt? (run : Run) (index : Nat) : Option UInt8 :=
  if index < run.start then none else run.bytes[index - run.start]?

theorem isSome_byteAt? (run : Run) (index : Nat) :
    (run.byteAt? index).isSome ↔ run.start ≤ index ∧ index < run.stop := by
  simp only [byteAt?, stop]
  by_cases hstart : index < run.start
  · simp only [hstart, ↓reduceIte, Option.isSome_none, Bool.false_eq_true, false_iff]
    omega
  · simp only [hstart, ↓reduceIte, isSome_getElem?]
    omega

theorem byteAt?_eq_none (run : Run) (index : Nat) (hout : index < run.start ∨ run.stop ≤ index) :
    run.byteAt? index = none := by
  rw [← Option.not_isSome_iff_eq_none, isSome_byteAt?]
  omega

-- A run that is continued has its own bytes first and then those of the later one.
theorem byteAt?_extend (run later : Run) (hstart : run.start ≤ later.start)
    (htouch : later.start ≤ run.stop) (index : Nat) :
    (run.extend later).byteAt? index = (run.byteAt? index).or (later.byteAt? index) := by
  by_cases hbefore : index < run.start
  · rw [byteAt?_eq_none run index (.inl hbefore), byteAt?_eq_none later index (.inl (by omega)),
      byteAt?_eq_none (run.extend later) index (.inl hbefore), Option.none_or]
  by_cases hown : index < run.stop
  · -- inside the run itself
    have hlen : index - run.start < run.bytes.length := by
      simp only [stop] at hown
      omega
    simp only [byteAt?, extend, hbefore, ↓reduceIte, List.getElem?_append_left hlen,
      List.getElem?_eq_getElem hlen, Option.some_or]
  · rw [byteAt?_eq_none run index (.inr (by omega)), Option.none_or]
    simp only [byteAt?, extend, hbefore, ↓reduceIte, show ¬ index < later.start by omega]
    simp only [stop] at hown htouch
    rw [List.getElem?_append_right (by omega), List.getElem?_drop]
    congr 1
    simp only [stop]
    omega

-- The place and the bytes of a run are all there is to it.
theorem eq_of_byteAt?_eq (run other : Run) (hstart : run.start = other.start)
    (hbytes : ∀ index, run.byteAt? index = other.byteAt? index) : run = other := by
  have hall : run.bytes = other.bytes := by
    apply List.ext_getElem?
    intro offset
    have hoffset := hbytes (run.start + offset)
    rwa [byteAt?, byteAt?, if_neg (by omega), if_neg (by omega), ← hstart,
      Nat.add_sub_cancel_left] at hoffset
  cases run
  cases other
  exact congrArg₂ Run.mk hstart hall

end Run

namespace Held

-- The byte that some runs have for an index, the first of them if several have one.
def byteAt? (runs : List Run) (index : Nat) : Option UInt8 :=
  runs.findSome? (Run.byteAt? · index)

def total : List Run → Nat
  | [] => 0
  | run :: runs => run.bytes.length + total runs

-- The form in which runs are held: in order, none of them empty, and between two of them
-- there is at least one index that neither has.
structure Normal (runs : List Run) : Prop where
  nonempty : ∀ run ∈ runs, run.bytes ≠ []
  apart : runs.Pairwise fun first second => first.stop < second.start

@[simp] theorem byteAt?_nil (index : Nat) : byteAt? [] index = none := rfl

@[simp] theorem byteAt?_cons (run : Run) (runs : List Run) (index : Nat) :
    byteAt? (run :: runs) index = (run.byteAt? index).or (byteAt? runs index) := by
  rw [byteAt?, List.findSome?_cons]
  cases run.byteAt? index <;> rfl

@[simp] theorem total_nil : total [] = 0 := rfl

@[simp] theorem total_cons (run : Run) (runs : List Run) :
    total (run :: runs) = run.bytes.length + total runs := rfl

theorem total_append (runs others : List Run) :
    total (runs ++ others) = total runs + total others := by
  induction runs with
  | nil => exact (Nat.zero_add _).symm
  | cons run runs ih => rw [List.cons_append, total_cons, total_cons, ih, Nat.add_assoc]

theorem normal_nil : Normal [] :=
  ⟨fun _ hmem => absurd hmem List.not_mem_nil, List.Pairwise.nil⟩

theorem normal_cons (run : Run) (runs : List Run) :
    Normal (run :: runs) ↔
      run.bytes ≠ [] ∧ (∀ later ∈ runs, run.stop < later.start) ∧ Normal runs := by
  constructor
  · intro hnormal
    obtain ⟨hne, hrest⟩ := List.forall_mem_cons.mp hnormal.nonempty
    obtain ⟨hlater, hapart⟩ := List.pairwise_cons.mp hnormal.apart
    exact ⟨hne, hlater, hrest, hapart⟩
  · rintro ⟨hne, hlater, hnormal⟩
    exact ⟨List.forall_mem_cons.mpr ⟨hne, hnormal.nonempty⟩,
      List.pairwise_cons.mpr ⟨hlater, hnormal.apart⟩⟩

theorem Normal.sublist {runs others : List Run} (hnormal : Normal others)
    (hsublist : runs.Sublist others) : Normal runs where
  nonempty := fun run hmem => hnormal.nonempty run (hsublist.subset hmem)
  apart := hnormal.apart.sublist hsublist

theorem start_lt_stop (run : Run) (hne : run.bytes ≠ []) : run.start < run.stop := by
  have hlen := List.length_pos_iff.mpr hne
  simp only [Run.stop]
  omega

theorem isSome_byteAt? (runs : List Run) (index : Nat) :
    (byteAt? runs index).isSome ↔ ∃ run ∈ runs, run.start ≤ index ∧ index < run.stop := by
  simp only [byteAt?, List.isSome_findSome?, List.any_eq_true, Run.isSome_byteAt?]

theorem exists_of_byteAt?_eq_some (runs : List Run) (index : Nat) (byte : UInt8)
    (hbyte : byteAt? runs index = some byte) : ∃ run ∈ runs, run.byteAt? index = some byte :=
  List.exists_of_findSome?_eq_some hbyte

-- In normal form no two runs have a byte for the same index.
theorem byteAt?_eq_some (runs : List Run) (hnormal : Normal runs) (index : Nat) (byte : UInt8) :
    byteAt? runs index = some byte ↔ ∃ run ∈ runs, run.byteAt? index = some byte := by
  refine ⟨exists_of_byteAt?_eq_some runs index byte, ?_⟩
  rintro ⟨run, hmem, hrun⟩
  induction runs with
  | nil => exact absurd hmem List.not_mem_nil
  | cons first rest ih =>
      obtain ⟨-, hlater, hrest⟩ := (normal_cons first rest).mp hnormal
      rw [byteAt?_cons]
      rcases List.mem_cons.mp hmem with rfl | hmem
      · rw [hrun, Option.some_or]
      · have hgap := hlater run hmem
        have hin := (run.isSome_byteAt? index).mp (by rw [hrun]; rfl)
        rw [Run.byteAt?_eq_none first index (.inr (by omega)), Option.none_or]
        exact ih hrest hmem

-- In normal form all later runs lie behind the end of the first one, with a gap between.
theorem byteAt?_rest_eq_none (run : Run) (rest : List Run) (hnormal : Normal (run :: rest))
    (index : Nat) (hindex : index ≤ run.stop) : byteAt? rest index = none := by
  obtain ⟨-, hlater, -⟩ := (normal_cons run rest).mp hnormal
  rw [← Option.not_isSome_iff_eq_none, isSome_byteAt?]
  rintro ⟨later, hmem, hle, -⟩
  have hgap := hlater later hmem
  omega

theorem byteAt?_head (run : Run) (rest : List Run) (hnormal : Normal (run :: rest)) (index : Nat)
    (hindex : index ≤ run.stop) : byteAt? (run :: rest) index = run.byteAt? index := by
  rw [byteAt?_cons, byteAt?_rest_eq_none run rest hnormal index hindex, Option.or_none]

theorem byteAt?_tail (run : Run) (rest : List Run) (index : Nat) (hindex : run.stop ≤ index) :
    byteAt? (run :: rest) index = byteAt? rest index := by
  rw [byteAt?_cons, run.byteAt?_eq_none index (.inr hindex), Option.none_or]

-- The first run begins at the first index that has a byte.
theorem isSome_byteAt?_start (run : Run) (rest : List Run) (hnormal : Normal (run :: rest)) :
    (byteAt? (run :: rest) run.start).isSome := by
  obtain ⟨hne, -, -⟩ := (normal_cons run rest).mp hnormal
  exact (isSome_byteAt? _ _).mpr
    ⟨run, List.mem_cons_self, Nat.le_refl _, start_lt_stop run hne⟩

theorem start_le_of_isSome (run : Run) (rest : List Run) (hnormal : Normal (run :: rest))
    (index : Nat) (hsome : (byteAt? (run :: rest) index).isSome) : run.start ≤ index := by
  by_cases hindex : index ≤ run.stop
  · rw [byteAt?_head run rest hnormal index hindex, Run.isSome_byteAt?] at hsome
    exact hsome.1
  · simp only [Run.stop] at hindex
    omega

-- And it ends at the first index after that which has none.
theorem stop_le_of_byteAt?_eq (run other : Run) (rest more : List Run)
    (hrun : Normal (run :: rest)) (hother : Normal (other :: more))
    (hstart : run.start = other.start)
    (hbytes : ∀ index, byteAt? (run :: rest) index = byteAt? (other :: more) index) :
    other.stop ≤ run.stop := by
  obtain ⟨hne, -, -⟩ := (normal_cons run rest).mp hrun
  have hpos := start_lt_stop run hne
  have hmissing : ¬ (byteAt? (run :: rest) run.stop).isSome := by
    rw [byteAt?_head run rest hrun run.stop (Nat.le_refl _), Run.isSome_byteAt?]
    omega
  by_contra hlt
  rw [hbytes, byteAt?_head other more hother run.stop (by omega), Run.isSome_byteAt?] at hmissing
  omega

-- The bytes decide the runs: there is one normal form for each way of having bytes at indices.
theorem eq_of_byteAt?_eq (runs others : List Run) (hruns : Normal runs) (hothers : Normal others)
    (hbytes : ∀ index, byteAt? runs index = byteAt? others index) : runs = others := by
  induction runs generalizing others with
  | nil =>
      cases others with
      | nil => rfl
      | cons other more =>
          have hsome := isSome_byteAt?_start other more hothers
          rw [← hbytes] at hsome
          cases hsome
  | cons run rest ih =>
      cases others with
      | nil =>
          have hsome := isSome_byteAt?_start run rest hruns
          rw [hbytes] at hsome
          cases hsome
      | cons other more =>
          have hstart : run.start = other.start := Nat.le_antisymm
            (start_le_of_isSome run rest hruns _ (hbytes _ ▸ isSome_byteAt?_start _ _ hothers))
            (start_le_of_isSome other more hothers _ (hbytes _ ▸ isSome_byteAt?_start _ _ hruns))
          have hstop : run.stop = other.stop := Nat.le_antisymm
            (stop_le_of_byteAt?_eq other run more rest hothers hruns hstart.symm
              fun index => (hbytes index).symm)
            (stop_le_of_byteAt?_eq run other rest more hruns hothers hstart hbytes)
          have hhead : run = other := by
            apply Run.eq_of_byteAt?_eq run other hstart
            intro index
            by_cases hindex : index ≤ run.stop
            · rw [← byteAt?_head run rest hruns index hindex,
                ← byteAt?_head other more hothers index (hstop ▸ hindex), hbytes]
            · rw [run.byteAt?_eq_none index (.inr (by omega)),
                other.byteAt?_eq_none index (.inr (by omega))]
          have htail : rest = more := by
            apply ih more ((normal_cons run rest).mp hruns).2.2
              ((normal_cons other more).mp hothers).2.2
            intro index
            by_cases hindex : index ≤ run.stop
            · rw [byteAt?_rest_eq_none run rest hruns index hindex,
                byteAt?_rest_eq_none other more hothers index (hstop ▸ hindex)]
            · rw [← byteAt?_tail run rest index (by omega), hbytes,
                byteAt?_tail other more index (by omega)]
          rw [hhead, htail]

end Held

end UserTcp
