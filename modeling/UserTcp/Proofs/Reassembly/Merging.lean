import UserTcp.Proofs.Reassembly.Representation
import UserTcp.SeqNo.Basic
import Mathlib.Order.Interval.Set.Basic

namespace UserTcp

-- A number, if there is a word of 64 bits for it.
def word? (number : Nat) : Option Nat :=
  if number < SeqNo.indexLimit then some number else none

theorem word?_eq (number : Nat) (hfits : number < SeqNo.indexLimit) : word? number = some number :=
  if_pos hfits

namespace Held

-- The runs as a map from their starts, with what such a map can be asked for.
def lastUpTo? (place : Nat) (runs : List Run) : Option Run :=
  runs.reverse.find? fun old => old.start ≤ place

def firstWithin? (low high : Nat) (runs : List Run) : Option Run :=
  runs.find? fun old => low ≤ old.start ∧ old.start ≤ high

def remove (start : Nat) (runs : List Run) : List Run :=
  runs.filter fun old => old.start ≠ start

def enter (run : Run) (runs : List Run) : List Run :=
  (runs.filter fun old => old.start < run.start) ++
    run :: runs.filter fun old => run.start < old.start

theorem length_remove_lt {low high : Nat} {runs : List Run} {old : Run}
    (hfound : firstWithin? low high runs = some old) :
    (remove old.start runs).length < runs.length :=
  List.length_filter_lt_length_iff_exists.mpr
    ⟨old, List.mem_of_find?_eq_some hfound, by simp⟩

-- As long as there is a run that starts inside the merged one or right at its end, it leaves the
-- map and the merged one continues with what it has past that end.
def absorb? (run : Run) (runs : List Run) (count : Nat) : Option Held :=
  match _ : firstWithin? run.start run.stop runs with
  | none => (word? (count + run.bytes.length)).map fun count => ⟨enter run runs, count⟩
  | some next =>
      (count.psub next.bytes.length).bind fun left =>
        (word? next.stop).bind fun _ =>
          (run.extend? next).bind fun longer => absorb? longer (remove next.start runs) left
termination_by runs.length
decreasing_by exact length_remove_lt ‹_›

-- Storing by searches in the map, with a look before each subtraction whether it stays above zero,
-- before each cut whether the bytes are there, and before each sum whether it has a word.
def merge? (held : Held) (run : Run) : Option Held :=
  (word? run.stop).bind fun stop =>
    match lastUpTo? run.start held.runs with
    | none => absorb? run held.runs held.count
    | some before =>
        (word? before.stop).bind fun reached =>
          if stop ≤ reached then some held
          else if run.start ≤ reached then
            (held.count.psub before.bytes.length).bind fun left =>
              (before.extend? run).bind fun longer =>
                absorb? longer (remove before.start held.runs) left
          else absorb? run held.runs held.count

theorem absorb?_of_none {run : Run} {runs : List Run} (count : Nat)
    (hnone : firstWithin? run.start run.stop runs = none) :
    absorb? run runs count =
      (word? (count + run.bytes.length)).map fun count => ⟨enter run runs, count⟩ := by
  rw [absorb?]
  split
  · rfl
  · rename_i next hfound
    nomatch hnone.symm.trans hfound

theorem absorb?_of_some {run next : Run} {runs : List Run} (count : Nat)
    (hfound : firstWithin? run.start run.stop runs = some next) :
    absorb? run runs count =
      (count.psub next.bytes.length).bind fun left =>
        (word? next.stop).bind fun _ =>
          (run.extend? next).bind fun longer => absorb? longer (remove next.start runs) left := by
  rw [absorb?]
  split
  · rename_i hnone
    nomatch hfound.symm.trans hnone
  · rename_i other hother
    cases hfound.symm.trans hother
    rfl

theorem remove_append (front : List Run) (run : Run) (rest : List Run)
    (hfront : ∀ old ∈ front, old.start < run.start)
    (hrest : ∀ later ∈ rest, run.start < later.start) :
    remove run.start (front ++ run :: rest) = front ++ rest := by
  have hbefore : ∀ old ∈ front, old.start ≠ run.start := fun old hmem =>
    Nat.ne_of_lt (hfront old hmem)
  have hbehind : ∀ later ∈ rest, later.start ≠ run.start := fun later hmem =>
    Nat.ne_of_gt (hrest later hmem)
  rw [remove, List.filter_append, List.filter_cons_of_neg (by simp),
    List.filter_eq_self.mpr (by simpa using hbefore),
    List.filter_eq_self.mpr (by simpa using hbehind)]

section Search

variable {run : Run} {front rest : List Run} (hfront : ∀ old ∈ front, old.start < run.start)

include hfront

theorem firstWithin?_append (high : Nat) :
    firstWithin? run.start high (front ++ rest) = firstWithin? run.start high rest := by
  have hnone : firstWithin? run.start high front = none := by
    simp only [firstWithin?, List.find?_eq_none, decide_eq_true_eq]
    intro old hmem
    have hlt := hfront old hmem
    omega
  rw [firstWithin?, List.find?_append, ← firstWithin?, hnone, Option.none_or]
  rfl

theorem enter_append (hrest : ∀ later ∈ rest, run.start < later.start) :
    enter run (front ++ rest) = front ++ run :: rest := by
  have hnotBehind : ∀ old ∈ front, ¬ run.start < old.start := by
    intro old hmem
    have hlt := hfront old hmem
    omega
  have hnotBefore : ∀ later ∈ rest, ¬ later.start < run.start := by
    intro later hmem
    have hlt := hrest later hmem
    omega
  rw [enter, List.filter_append, List.filter_append, List.filter_eq_self.mpr (by simpa using hfront),
    List.filter_eq_nil_iff.mpr (by simpa using hnotBefore),
    List.filter_eq_nil_iff.mpr (by simpa using hnotBehind),
    List.filter_eq_self.mpr (by simpa using hrest), List.append_nil, List.nil_append]

variable (run front) in
-- The runs before the merged one stay out of the search. Of the others those that it finds come
-- first, in the order in which they are gathered.
theorem absorb?_eq (count : Nat) (hnormal : Normal rest)
    (hrest : ∀ later ∈ rest, run.start < later.start)
    (hcount : total rest ≤ count) (hstops : ∀ old ∈ rest, old.stop < SeqNo.indexLimit)
    (hfits : (gather run rest count).count < SeqNo.indexLimit) :
    absorb? run (front ++ rest) count =
      some ⟨front ++ (gather run rest count).runs, (gather run rest count).count⟩ := by
  fun_induction gather run rest count with
  | case1 run count =>
      rw [absorb?_of_none count (firstWithin?_append hfront run.stop), word?_eq _ hfits,
        Option.map_some, enter_append hfront hrest]
  | case2 run next rest count htouch ih =>
      obtain ⟨-, hlater, hnormal⟩ := (normal_cons next rest).mp hnormal
      obtain ⟨hnext, hrest⟩ := List.forall_mem_cons.mp hrest
      obtain ⟨hstop, hstops⟩ := List.forall_mem_cons.mp hstops
      rw [total_cons] at hcount
      have hfound : firstWithin? run.start run.stop (front ++ next :: rest) = some next := by
        rw [firstWithin?_append hfront]
        exact List.find?_cons_of_pos (decide_eq_true ⟨Nat.le_of_lt hnext, htouch⟩)
      have hbehind : ∀ later ∈ rest, next.start < later.start := by
        intro later hmem
        have hgap := hlater later hmem
        simp only [Run.stop] at hgap
        omega
      rw [absorb?_of_some count hfound, Nat.psub_eq_sub (by omega), Option.bind_some,
        word?_eq _ hstop, Option.bind_some, Run.extend?_eq run next htouch, Option.bind_some,
        remove_append front next rest
          (fun old hmem => Nat.lt_trans (hfront old hmem) hnext) hbehind]
      exact ih hfront hnormal hrest (by omega) hstops hfits
  | case3 run next rest count hgap =>
      obtain ⟨-, hlater, -⟩ := (normal_cons next rest).mp hnormal
      have hnone : firstWithin? run.start run.stop (next :: rest) = none := by
        simp only [firstWithin?, List.find?_eq_none, decide_eq_true_eq]
        intro later hmem
        rcases List.mem_cons.mp hmem with rfl | hmem
        · omega
        · have hbehind := hlater later hmem
          simp only [Run.stop] at *
          omega
      rw [absorb?_of_none count ((firstWithin?_append hfront run.stop).trans hnone),
        word?_eq _ hfits, Option.map_some, enter_append hfront hrest]

end Search

-- A place parts the runs into those that start at or before it, the last of which a search from
-- behind finds, and those that start after it.
theorem parted_at (runs : List Run) (hnormal : Normal runs) (place : Nat) :
    (lastUpTo? place runs = none ∧ ∀ old ∈ runs, place < old.start) ∨
      ∃ front before rest, runs = front ++ before :: rest ∧
        lastUpTo? place runs = some before ∧ before.start ≤ place ∧
        (∀ old ∈ front, old.stop < before.start) ∧ ∀ later ∈ rest, place < later.start := by
  cases hlast : lastUpTo? place runs with
  | none =>
      refine .inl ⟨rfl, ?_⟩
      simpa only [lastUpTo?, List.find?_eq_none, List.mem_reverse, decide_eq_true_eq,
        Nat.not_le] using hlast
  | some before =>
      obtain ⟨hstart, later, earlier, hparted, hlater⟩ := List.find?_eq_some_iff_append.mp hlast
      have hruns : runs = earlier.reverse ++ before :: later.reverse := by
        rw [← List.reverse_reverse runs, hparted]
        simp
      refine .inr ⟨_, _, _, hruns, rfl, of_decide_eq_true hstart, ?_, ?_⟩
      · have hapart := hnormal.apart
        rw [hruns] at hapart
        exact fun old hmem =>
          (List.pairwise_append.mp hapart).2.2 old hmem before List.mem_cons_self
      · intro old hmem
        simpa using hlater old (List.mem_reverse.mp hmem)

theorem place_of_ahead (run : Run) (runs : List Run) (count : Nat)
    (hahead : ∀ later ∈ runs, run.start < later.start) :
    place run runs count = gather run runs count := by
  cases runs with
  | nil => rfl
  | cons first rest =>
      have hfirst := hahead first List.mem_cons_self
      rw [place, if_neg (by simp only [Run.stop]; omega), if_pos hfirst]

theorem place_append (run : Run) (front rest : List Run) (count : Nat)
    (hfront : ∀ old ∈ front, old.stop < run.start) :
    place run (front ++ rest) count =
      ⟨front ++ (place run rest count).runs, (place run rest count).count⟩ := by
  induction front with
  | nil => rfl
  | cons first front ih =>
      obtain ⟨hfirst, hfront⟩ := List.forall_mem_cons.mp hfront
      rw [List.cons_append, place, if_pos hfirst, ih hfront]
      rfl

section Parted

variable {run before : Run} {front rest : List Run}
  (hfront : ∀ old ∈ front, old.stop < before.start) (hbefore : before.start ≤ run.start)

include hfront hbefore

theorem place_covered (count : Nat) (hne : run.bytes ≠ []) (hcovered : run.stop ≤ before.stop) :
    place run (front ++ before :: rest) count = ⟨front ++ before :: rest, count⟩ := by
  have hpos := start_lt_stop run hne
  rw [place_append run front _ count fun old hmem => Nat.lt_of_lt_of_le (hfront old hmem) hbefore,
    place, if_neg (by omega), if_neg (by omega), if_pos hcovered]

theorem place_touching (count : Nat) (htouch : run.start ≤ before.stop)
    (hbeyond : before.stop < run.stop) :
    place run (front ++ before :: rest) count =
      ⟨front ++ (gather (before.extend run) rest (count - before.bytes.length)).runs,
        (gather (before.extend run) rest (count - before.bytes.length)).count⟩ := by
  rw [place_append run front _ count fun old hmem => Nat.lt_of_lt_of_le (hfront old hmem) hbefore,
    place, if_neg (by omega), if_neg (by omega), if_neg (by omega)]

theorem place_apart (count : Nat) (hrest : ∀ later ∈ rest, run.start < later.start)
    (hapart : before.stop < run.start) :
    place run (front ++ before :: rest) count =
      ⟨front ++ [before] ++ (gather run rest count).runs, (gather run rest count).count⟩ := by
  rw [place_append run front _ count fun old hmem => Nat.lt_of_lt_of_le (hfront old hmem) hbefore,
    place, if_pos hapart, place_of_ahead run rest count hrest, List.append_assoc]
  rfl

end Parted

section Merge

variable {held : Held} {run : Run} (hcount : held.count = total held.runs)
  (hnormal : Normal held.runs) (hne : run.bytes ≠ [])

include hcount hnormal hne

theorem count_store_le (limit : Nat) (hrun : run.stop ≤ limit)
    (hruns : ∀ old ∈ held.runs, old.stop ≤ limit) : (held.store run).count ≤ limit := by
  have htotal := add_total_le (held.store run).runs (normal_place run _ _ hne hnormal) 0 limit
    (Nat.zero_le _) (fun _ _ => Nat.zero_le _)
    (stop_le_of_mem_place run held.runs held.count limit hne hnormal hrun hruns)
  rw [count_store held run hcount]
  omega

theorem merge?_eq (hstop : run.stop < SeqNo.indexLimit)
    (hstops : ∀ old ∈ held.runs, old.stop < SeqNo.indexLimit) :
    held.merge? run = some (held.store run) := by
  have hfits : (held.store run).count < SeqNo.indexLimit :=
    Nat.lt_of_le_pred (by decide) (count_store_le hcount hnormal hne (SeqNo.indexLimit - 1)
      (Nat.le_pred_of_lt hstop) fun old hmem => Nat.le_pred_of_lt (hstops old hmem))
  obtain ⟨runs, count⟩ := held
  simp only [store, merge?, word?_eq _ hstop, Option.bind_some] at *
  rcases parted_at runs hnormal run.start with
    ⟨hnone, hahead⟩ | ⟨front, before, rest, rfl, hlast, hbefore, hfront, hrest⟩
  · rw [place_of_ahead run runs count hahead] at hfits ⊢
    rw [hnone]
    exact absorb?_eq run [] (fun _ hmem => absurd hmem List.not_mem_nil) count hnormal hahead
      (Nat.le_of_eq hcount.symm) hstops hfits
  · have hnormalRest : Normal rest := hnormal.sublist
      ((List.sublist_cons_self before rest).trans (List.sublist_append_right front _))
    obtain ⟨-, hstops⟩ := List.forall_mem_append.mp hstops
    obtain ⟨hbeforeStop, hstops⟩ := List.forall_mem_cons.mp hstops
    have hstarts : ∀ old ∈ front, old.start < before.start := fun old hmem =>
      Nat.lt_of_le_of_lt (Nat.le_add_right _ _) (hfront old hmem)
    rw [total_append, total_cons] at hcount
    simp only [hlast, word?_eq _ hbeforeStop, Option.bind_some]
    by_cases hcovered : run.stop ≤ before.stop
    · rw [if_pos hcovered, place_covered hfront hbefore count hne hcovered]
    rw [if_neg hcovered]
    by_cases htouch : run.start ≤ before.stop
    · have hbehind : ∀ later ∈ rest, before.start < later.start := fun later hmem =>
        Nat.lt_of_le_of_lt hbefore (hrest later hmem)
      rw [place_touching hfront hbefore count htouch (by omega)] at hfits ⊢
      rw [if_pos htouch, Nat.psub_eq_sub (by omega), Option.bind_some,
        Run.extend?_eq before run htouch, Option.bind_some,
        remove_append front before rest hstarts hbehind]
      exact absorb?_eq (before.extend run) front hstarts _ hnormalRest hbehind (by omega) hstops hfits
    · have hstarts : ∀ old ∈ front ++ [before], old.start < run.start := by
        have hle : before.start ≤ before.stop := Nat.le_add_right _ _
        intro old hmem
        rcases List.mem_append.mp hmem with hmem | hmem
        · exact Nat.lt_of_lt_of_le (hstarts old hmem) hbefore
        · rw [List.mem_singleton.mp hmem]
          omega
      rw [place_apart hfront hbefore count hrest (by omega)] at hfits ⊢
      rw [if_neg htouch, List.append_cons]
      exact absorb?_eq run (front ++ [before]) hstarts count hnormalRest hrest (by omega) hstops hfits

end Merge

-- The run that is in the way of a new one from the front: the last of those that start at or before
-- the place where it starts.
def Leads (runs : List Run) (place : Nat) (before : Run) : Prop :=
  before ∈ runs ∧ before.start ≤ place ∧
    ∀ old ∈ runs, old.start ≤ place → old.start ≤ before.start

-- The indices where a new run changes nothing: those that it does not have and those of the run that
-- leads to it.
def Keeps (runs : List Run) (run : Run) (index : Nat) : Prop :=
  (∃ before, Leads runs run.start before ∧ before.start ≤ index ∧ index < before.stop) ∨
    ¬ (run.start ≤ index ∧ index < run.stop)

section Bytes

variable {runs : List Run} (hnormal : Normal runs)

include hnormal

theorem stop_lt_start (first second : Run) (hfirst : first ∈ runs) (hsecond : second ∈ runs)
    (hlt : first.start < second.start) : first.stop < second.start := by
  induction runs with
  | nil => exact absurd hfirst List.not_mem_nil
  | cons run rest ih =>
      obtain ⟨-, hlater, hrest⟩ := (normal_cons run rest).mp hnormal
      rcases List.mem_cons.mp hfirst with rfl | hfirstRest
      · rcases List.mem_cons.mp hsecond with rfl | hsecondRest
        · exact absurd hlt (Nat.lt_irrefl _)
        · exact hlater second hsecondRest
      · rcases List.mem_cons.mp hsecond with rfl | hsecondRest
        · have hgap := hlater first hfirstRest
          simp only [Run.stop] at hgap
          omega
        · exact ih hrest hfirstRest hsecondRest

theorem byteAt?_of_mem (run : Run) (hmem : run ∈ runs) (index : Nat) (hstart : run.start ≤ index)
    (hstop : index < run.stop) : byteAt? runs index = run.byteAt? index := by
  obtain ⟨byte, hbyte⟩ := Option.isSome_iff_exists.mp
    ((run.isSome_byteAt? index).mpr ⟨hstart, hstop⟩)
  rw [hbyte]
  exact (byteAt?_eq_some runs hnormal index byte).mpr ⟨run, hmem, hbyte⟩

theorem byteAt?_upTo_eq_none (place index : Nat) (hindex : place ≤ index)
    (hfree : ∀ before, Leads runs place before → ¬ (before.start ≤ index ∧ index < before.stop)) :
    byteAt? (runs.filter fun old => old.start ≤ place) index = none := by
  rw [← Option.not_isSome_iff_eq_none, isSome_byteAt?]
  rintro ⟨old, hmem, hin⟩
  obtain ⟨hmem, hstart⟩ := List.mem_filter.mp hmem
  refine hfree old ⟨hmem, of_decide_eq_true hstart, fun other hother hle => ?_⟩ hin
  by_contra hlt
  have hgap := stop_lt_start hnormal old other hmem hother (by omega)
  omega

-- The byte of an index is on one side of a place or on the other.
theorem byteAt?_filter_or (place index : Nat) :
    (byteAt? (runs.filter fun old => old.start ≤ place) index).or
        (byteAt? (runs.filter fun old => place < old.start) index) = byteAt? runs index := by
  have hupTo := hnormal.sublist (List.filter_sublist (p := fun old => old.start ≤ place))
  have hafter := hnormal.sublist (List.filter_sublist (p := fun old => place < old.start))
  apply Option.ext
  intro byte
  rw [Option.or_eq_some_iff, byteAt?_eq_some _ hupTo, byteAt?_eq_some _ hafter,
    byteAt?_eq_some _ hnormal]
  constructor
  · rintro (⟨run, hmem, hbyte⟩ | ⟨-, run, hmem, hbyte⟩) <;>
      exact ⟨run, List.mem_of_mem_filter hmem, hbyte⟩
  · rintro ⟨run, hmem, hbyte⟩
    by_cases hstart : run.start ≤ place
    · exact .inl ⟨run, List.mem_filter.mpr ⟨hmem, decide_eq_true hstart⟩, hbyte⟩
    · have hin := (run.isSome_byteAt? index).mp (by rw [hbyte]; rfl)
      have hnone := byteAt?_upTo_eq_none hnormal place index (by omega) fun before hleads => by
        have hle := hleads.2.1
        have hgap := stop_lt_start hnormal before run hleads.1 hmem (by omega)
        omega
      exact .inr ⟨hnone, run, List.mem_filter.mpr ⟨hmem, decide_eq_true (by omega)⟩, hbyte⟩

theorem byteAt?_place_of_keeps (run : Run) (count index : Nat) (hkeeps : Keeps runs run index) :
    byteAt? (place run runs count).runs index = byteAt? runs index := by
  rw [byteAt?_place run runs count hnormal]
  rcases hkeeps with ⟨before, ⟨hmem, hle, -⟩, hstart, hstop⟩ | hout
  · have hupTo := hnormal.sublist (List.filter_sublist (p := fun old => old.start ≤ run.start))
    rw [byteAt?_of_mem hnormal before hmem index hstart hstop,
      byteAt?_of_mem hupTo before (List.mem_filter.mpr ⟨hmem, decide_eq_true hle⟩) index hstart hstop]
    exact Option.or_of_isSome ((before.isSome_byteAt? index).mpr ⟨hstart, hstop⟩)
  · rw [run.byteAt?_eq_none index (by omega), Option.none_or, byteAt?_filter_or hnormal]

theorem byteAt?_place_of_not_keeps (run : Run) (count index : Nat)
    (hkeeps : ¬ Keeps runs run index) :
    byteAt? (place run runs count).runs index = run.byteAt? index := by
  obtain ⟨hfree, hin⟩ := not_or.mp hkeeps
  obtain ⟨hstart, hstop⟩ := Classical.not_not.mp hin
  rw [byteAt?_place run runs count hnormal, byteAt?_upTo_eq_none hnormal run.start index hstart
    fun before hleads hbetween => hfree ⟨before, hleads, hbetween⟩, Option.none_or]
  exact Option.or_of_isSome ((run.isSome_byteAt? index).mpr ⟨hstart, hstop⟩)

end Bytes

-- Whatever bytes a run brings, the held runs with it stored among them are in normal form and counted
-- again, and have exactly the indices that they had and those of the new run. Where they keep a byte it
-- is the one that they had, elsewhere it is the new one. The searches in the map come to an end and
-- give the same runs if every stop has a word.
theorem merges_into_held (held : Held) (run : Run) (hnormal : Normal held.runs)
    (hcount : held.count = total held.runs) (hne : run.bytes ≠ []) :
    let stored := held.store run
    (Normal stored.runs ∧ stored.count = total stored.runs) ∧
      {index | ∃ old ∈ stored.runs, old.start ≤ index ∧ index < old.stop} =
        {index | ∃ old ∈ held.runs, old.start ≤ index ∧ index < old.stop} ∪
          Set.Ico run.start run.stop ∧
      (∀ index, (Keeps held.runs run index → byteAt? stored.runs index = byteAt? held.runs index) ∧
        (¬ Keeps held.runs run index → byteAt? stored.runs index = run.byteAt? index)) ∧
      (run.stop < SeqNo.indexLimit → (∀ old ∈ held.runs, old.stop < SeqNo.indexLimit) →
        held.merge? run = some stored) := by
  intro stored
  refine ⟨⟨normal_place run held.runs held.count hne hnormal, count_store held run hcount⟩, ?_, ?_,
    merge?_eq hcount hnormal hne⟩
  · ext index
    have hcovered := isSome_byteAt?_place run held.runs held.count hnormal index
    rw [isSome_byteAt?, isSome_byteAt?, Run.isSome_byteAt?, or_comm] at hcovered
    exact hcovered
  · exact fun index => ⟨byteAt?_place_of_keeps hnormal run held.count index,
      byteAt?_place_of_not_keeps hnormal run held.count index⟩

-- The new bytes conflict with those of the first run, which stay, and with that of the second,
-- which is lost. The third run is touched at its start, the last one is out of reach.
theorem merges_into_held_conflicting :
    let held : Held := ⟨[⟨1, [1, 2]⟩, ⟨5, [3]⟩, ⟨8, [4, 5]⟩, ⟨12, [6]⟩], 6⟩
    let run : Run := ⟨2, [9, 9, 9, 9, 9, 9]⟩
    (Normal held.runs ∧ held.count = total held.runs ∧ run.bytes ≠ []) ∧
      held.merge? run = some ⟨[⟨1, [1, 2, 9, 9, 9, 9, 9, 4, 5]⟩, ⟨12, [6]⟩], 10⟩ ∧
      byteAt? (held.store run).runs 5 = run.byteAt? 5 := by
  intro held run
  have hnormal : Normal held.runs := ⟨by decide, by decide⟩
  have hfree : ∀ before ∈ held.runs, before.start ≤ run.start →
      ¬ (before.start ≤ 5 ∧ 5 < before.stop) := by decide
  have hkeeps : ¬ Keeps held.runs run 5 := by
    rintro (⟨before, ⟨hmem, hle, -⟩, hbetween⟩ | hout)
    · exact hfree before hmem hle hbetween
    · exact hout (by decide)
  obtain ⟨-, -, hbytes, hmerge⟩ := merges_into_held held run hnormal rfl (by decide)
  exact ⟨⟨hnormal, rfl, by decide⟩, hmerge (by decide) (by decide), (hbytes 5).2 hkeeps⟩

end Held

end UserTcp
