import UserTcp.Proofs.Pipe.Carries
import UserTcp.Proofs.Reassembly.Store
import UserTcp.Reassembly.Basic

namespace UserTcp.Reassembly

-- The byte at an index of the stream, wherever it is by now: among those that the output
-- has accepted, or in a run that waits for a gap to fill.
def contentAt? (history : List UInt8) (runs : List Run) (index : Nat) : Option UInt8 :=
  history[index]?.or (Held.byteAt? runs index)

-- The runs are in normal form and lie where the output has room.
structure Stored (reassembly : Reassembly) (history : List UInt8) : Prop where
  output : reassembly.output.Carries history
  normal : Held.Normal reassembly.held.runs
  count_eq : reassembly.held.count = Held.total reassembly.held.runs
  expected_le : ∀ run ∈ reassembly.held.runs, reassembly.expected ≤ run.start
  stop_le : ∀ run ∈ reassembly.held.runs, run.stop ≤ reassembly.limit

-- And nothing waits that could go out.
structure Intact (reassembly : Reassembly) (history : List UInt8) : Prop
    extends Stored reassembly history where
  start_ne : ∀ run ∈ reassembly.held.runs, run.start ≠ reassembly.expected

theorem intact_ofOutput (capacity : Nat) : (ofOutput (Pipe.empty capacity)).Intact [] where
  output := Pipe.carries_empty capacity
  normal := Held.normal_nil
  count_eq := rfl
  expected_le := fun _ hmem => absurd hmem List.not_mem_nil
  stop_le := fun _ hmem => absurd hmem List.not_mem_nil
  start_ne := fun _ hmem => absurd hmem List.not_mem_nil

theorem Stored.expected_eq {reassembly : Reassembly} {history : List UInt8}
    (hstored : reassembly.Stored history) : reassembly.expected = history.length :=
  hstored.output.pushed_eq

-- The room ends a capacity after the last byte that was taken out.
theorem Stored.limit_eq {reassembly : Reassembly} {history : List UInt8}
    (hstored : reassembly.Stored history) :
    reassembly.limit = reassembly.output.popped + reassembly.output.capacity := by
  have hbuffered := hstored.output.buffered_eq
  have hpushed := hstored.output.pushed_eq
  have hpopped := hstored.output.popped_le
  have hfits := hstored.output.buffered_le
  simp only [limit, expected, Pipe.free, Pipe.buffered] at *
  omega

theorem isSome_contentAt? (history : List UInt8) (runs : List Run) (index : Nat) :
    (contentAt? history runs index).isSome ↔
      index < history.length ∨ ∃ run ∈ runs, run.start ≤ index ∧ index < run.stop := by
  rw [contentAt?, Option.isSome_or, Bool.or_eq_true, isSome_getElem?, Held.isSome_byteAt?]

theorem stop_clip_le (reassembly : Reassembly) (piece : Run)
    (hne : (reassembly.clip piece).bytes ≠ []) :
    (reassembly.clip piece).stop ≤ reassembly.limit := by
  have hlen := List.length_pos_iff.mpr hne
  simp only [clip, Run.stop, List.length_take, List.length_drop] at *
  omega

theorem byteAt?_clip (reassembly : Reassembly) (piece : Run) (index : Nat) :
    (reassembly.clip piece).byteAt? index =
      if reassembly.expected ≤ index ∧ index < reassembly.limit then piece.byteAt? index
      else none := by
  by_cases hstart : index < max piece.start reassembly.expected
  · rw [Run.byteAt?_eq_none _ index (.inl hstart)]
    by_cases hexpected : reassembly.expected ≤ index
    · rw [Run.byteAt?_eq_none piece index (.inl (by omega)), ite_self]
    · rw [if_neg (fun hroom => hexpected hroom.1)]
  by_cases hstop : piece.stop ≤ index
  · rw [Run.byteAt?_eq_none piece index (.inr hstop), ite_self]
    apply Run.byteAt?_eq_none
    simp only [clip, Run.stop, List.length_take, List.length_drop] at *
    omega
  · simp only [Run.byteAt?, clip, hstart, ↓reduceIte, List.getElem?_take, List.getElem?_drop,
      show ¬ index < piece.start by omega, show reassembly.expected ≤ index by omega, true_and]
    have hplace : max piece.start reassembly.expected - piece.start +
        (index - max piece.start reassembly.expected) = index - piece.start := by omega
    rw [hplace]
    by_cases hlimit : index < reassembly.limit
    · rw [if_pos (by omega), if_pos hlimit]
    · rw [if_neg (by omega), if_neg hlimit]

-- The runs that are held once a piece has been put among them.
def runsWith (reassembly : Reassembly) (piece : Run) : List Run :=
  if (reassembly.clip piece).bytes = [] then reassembly.held.runs
  else (reassembly.held.store (reassembly.clip piece)).runs

theorem byteAt?_of_bytes_eq_nil (run : Run) (hempty : run.bytes = []) (index : Nat) :
    run.byteAt? index = none := by
  simp only [Run.byteAt?, hempty, List.getElem?_nil, ite_self]

-- What is held together with the output afterwards is what was there before and the part
-- of the piece that has room.
theorem isSome_contentAt?_runsWith {reassembly : Reassembly} {history : List UInt8}
    (hstored : reassembly.Stored history) (piece : Run) (index : Nat) :
    (contentAt? history (reassembly.runsWith piece) index).isSome ↔
      (contentAt? history reassembly.held.runs index).isSome ∨
        piece.start ≤ index ∧ index < piece.stop ∧ index < reassembly.limit := by
  have hexpected := hstored.expected_eq
  have hclip : ((reassembly.clip piece).byteAt? index).isSome ↔ reassembly.expected ≤ index ∧
      piece.start ≤ index ∧ index < piece.stop ∧ index < reassembly.limit := by
    have hpiece := piece.isSome_byteAt? index
    rw [byteAt?_clip]
    split
    · rw [hpiece]
      omega
    · simp only [Option.isSome_none, Bool.false_eq_true, false_iff]
      omega
  have hbefore : index < reassembly.expected →
      (contentAt? history reassembly.held.runs index).isSome := fun hlt =>
    (isSome_contentAt? history _ index).mpr (.inl (by omega))
  simp only [contentAt?, runsWith, Option.isSome_or, Bool.or_eq_true] at *
  by_cases hempty : (reassembly.clip piece).bytes = []
  · rw [if_pos hempty]
    rw [byteAt?_of_bytes_eq_nil _ hempty] at hclip
    simp only [Option.isSome_none, Bool.false_eq_true, false_iff] at hclip
    refine ⟨.inl, fun h => h.elim id fun hin => hbefore ?_⟩
    omega
  · rw [if_neg hempty, Held.store, Held.isSome_byteAt?_place _ _ _ hstored.normal, hclip]
    constructor
    · rintro (hhistory | ⟨-, hin⟩ | hheld)
      · exact .inl (.inl hhistory)
      · exact .inr hin
      · exact .inl (.inr hheld)
    · rintro ((hhistory | hheld) | hin)
      · exact .inl hhistory
      · exact .inr (.inr hheld)
      · cases Nat.lt_or_ge index reassembly.expected with
        | inl hlt => exact (hbefore hlt).imp_right .inr
        | inr hge => exact .inr (.inl ⟨hge, hin⟩)

theorem contentAt?_runsWith_eq_some {reassembly : Reassembly} {history : List UInt8}
    (hstored : reassembly.Stored history) (piece : Run) (index : Nat) (byte : UInt8)
    (hbyte : contentAt? history (reassembly.runsWith piece) index = some byte) :
    contentAt? history reassembly.held.runs index = some byte ∨
      reassembly.expected ≤ index ∧ piece.byteAt? index = some byte := by
  simp only [contentAt?, runsWith, Option.or_eq_some_iff] at *
  by_cases hempty : (reassembly.clip piece).bytes = []
  · rw [if_pos hempty] at hbyte
    exact .inl hbyte
  · rw [if_neg hempty] at hbyte
    rcases hbyte with hhistory | ⟨hnone, hplaced⟩
    · exact .inl (.inl hhistory)
    · rcases Held.byteAt?_place_eq_some _ _ _ hstored.normal index byte hplaced with hclip | hheld
      · rw [byteAt?_clip] at hclip
        split at hclip
        next hin => exact .inr ⟨hin.1, hclip⟩
        next => cases hclip
      · exact .inl (.inr ⟨hnone, hheld⟩)

theorem Stored.store {reassembly : Reassembly} {history : List UInt8}
    (hstored : reassembly.Stored history) (piece : Run)
    (hne : (reassembly.clip piece).bytes ≠ []) :
    { reassembly with held := reassembly.held.store (reassembly.clip piece) }.Stored history where
  output := hstored.output
  normal := Held.normal_place _ _ _ hne hstored.normal
  count_eq := Held.count_store _ _ hstored.count_eq
  expected_le := by
    intro held hmem
    obtain ⟨old, hold, hstart⟩ := Held.start_of_mem_place _ _ _ held hmem
    rw [← hstart]
    rcases List.mem_cons.mp hold with rfl | hold
    · exact Nat.le_max_right piece.start reassembly.expected
    · exact hstored.expected_le old hold
  stop_le := Held.stop_le_of_mem_place _ _ _ _ hne hstored.normal
    (reassembly.stop_clip_le piece hne) hstored.stop_le

end UserTcp.Reassembly
