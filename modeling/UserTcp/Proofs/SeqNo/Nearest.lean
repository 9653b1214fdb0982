import UserTcp.Proofs.NearestIndex

namespace UserTcp.SeqNo

-- How far ahead of the checkpoint the next index with a given wire form lies.
def offset (seqno initial : SeqNo) (checkpoint : Nat) : Nat :=
  (seqno.raw - (ofIndex checkpoint initial).raw).toNat

theorem offset_lt (seqno initial : SeqNo) (checkpoint : Nat) :
    offset seqno initial checkpoint < lap :=
  UInt32.toNat_lt (seqno.raw - (ofIndex checkpoint initial).raw)

theorem ofIndex_add_offset (seqno initial : SeqNo) (checkpoint : Nat) :
    ofIndex (checkpoint + offset seqno initial checkpoint) initial = seqno := by
  rw [ofIndex_add, offset, UInt32.ofNat_toNat, advance, UInt32.add_comm, UInt32.sub_add_cancel]

theorem nearestIndex_eq (seqno initial : SeqNo) (checkpoint : Nat) :
    nearestIndex seqno initial checkpoint =
      if checkpoint + offset seqno initial checkpoint < indexLimit ∧
          (offset seqno initial checkpoint ≤ lap / 2 ∨
            checkpoint + offset seqno initial checkpoint < lap) then
        checkpoint + offset seqno initial checkpoint
      else checkpoint + offset seqno initial checkpoint - lap := rfl

-- Indices with one wire form are whole laps apart.
theorem lap_apart {index other : Nat} {initial : SeqNo}
    (hsame : ofIndex index initial = ofIndex other initial) :
    index = other ∨ index + lap ≤ other ∨ other + lap ≤ index := by
  cases Nat.le_total index other with
  | inl hle =>
      by_cases hlap : other - index < lap
      · exact .inl (ofIndex_inj hsame hle hlap)
      · omega
  | inr hle =>
      by_cases hlap : index - other < lap
      · exact .inl (ofIndex_inj hsame.symm hle hlap).symm
      · omega

section Nearest

variable (seqno initial : SeqNo) {checkpoint : Nat} (hcheckpoint : checkpoint < indexLimit)

include hcheckpoint

-- The index ahead of the checkpoint is passed over when it has no place in 64 bits or lies more
-- than half a lap away. One behind the checkpoint exists then.
theorem nearestIndex_cases :
    (nearestIndex seqno initial checkpoint = checkpoint + offset seqno initial checkpoint ∧
      checkpoint + offset seqno initial checkpoint < indexLimit ∧
      (offset seqno initial checkpoint ≤ lap / 2 ∨
        checkpoint + offset seqno initial checkpoint < lap)) ∨
    (nearestIndex seqno initial checkpoint + lap =
        checkpoint + offset seqno initial checkpoint ∧
      (indexLimit ≤ checkpoint + offset seqno initial checkpoint ∨
        lap / 2 < offset seqno initial checkpoint)) := by
  rw [nearestIndex_eq]
  split
  · rename_i hahead
    exact .inl ⟨rfl, hahead⟩
  · rename_i hahead
    simp only [indexLimit, lap] at *
    omega

theorem ofIndex_nearestIndex : ofIndex (nearestIndex seqno initial checkpoint) initial = seqno := by
  have hforward := ofIndex_add_offset seqno initial checkpoint
  rcases nearestIndex_cases seqno initial hcheckpoint with ⟨hahead, -⟩ | ⟨hbehind, -⟩
  · rw [hahead, hforward]
  · rw [← ofIndex_add_lap _ 1, Nat.one_mul, hbehind, hforward]

-- All the other indices with this wire form lie further away, or just as far away and before it.
theorem nearestIndex_nearest {other : Nat} (hother : other < indexLimit)
    (hsame : ofIndex other initial = seqno) :
    ((nearestIndex seqno initial checkpoint : Int) - checkpoint).natAbs ≤
        ((other : Int) - checkpoint).natAbs ∧
      (((nearestIndex seqno initial checkpoint : Int) - checkpoint).natAbs =
          ((other : Int) - checkpoint).natAbs →
        other ≤ nearestIndex seqno initial checkpoint) := by
  have hoffset := offset_lt seqno initial checkpoint
  have hapart := lap_apart (hsame.trans (ofIndex_nearestIndex seqno initial hcheckpoint).symm)
  have hcases := nearestIndex_cases seqno initial hcheckpoint
  simp only [indexLimit, lap] at *
  omega

end Nearest

-- Sums and differences of words of 64 bits, where the result has a word of its own.
def addWords? (first second : UInt64) : Option UInt64 :=
  if first.toNat + second.toNat < indexLimit then some (first + second) else none

def subWords? (first second : UInt64) : Option UInt64 :=
  if second ≤ first then some (first - second) else none

def lapWord : UInt64 := 4294967296

-- The same index found in words of 64 bits. Only the first sum may pass their end.
def nearestWord? (seqno initial : SeqNo) (checkpoint : UInt64) : Option UInt64 :=
  let offset := (seqno.raw - (ofIndex checkpoint.toNat initial).raw).toUInt64
  match addWords? checkpoint offset with
  | some forward =>
      if offset ≤ lapWord / 2 ∨ forward < lapWord then some forward else subWords? forward lapWord
  | none => (subWords? lapWord offset).bind (subWords? checkpoint)

theorem addWords?_of_lt (first second : UInt64) (hlt : first.toNat + second.toNat < indexLimit) :
    ∃ sum, addWords? first second = some sum ∧ sum.toNat = first.toNat + second.toNat :=
  ⟨first + second, if_pos hlt, (UInt64.toNat_add first second).trans (Nat.mod_eq_of_lt hlt)⟩

theorem subWords?_of_le (first second : UInt64) (hle : second.toNat ≤ first.toNat) :
    ∃ rest, subWords? first second = some rest ∧ rest.toNat = first.toNat - second.toNat :=
  have hle := UInt64.le_iff_toNat_le.mpr hle
  ⟨first - second, if_pos hle, UInt64.toNat_sub_of_le first second hle⟩

theorem nearestWord?_eq_some (seqno initial : SeqNo) (checkpoint : UInt64) :
    ∃ found, nearestWord? seqno initial checkpoint = some found ∧
      found.toNat = nearestIndex seqno initial checkpoint.toNat := by
  have hlap : lapWord.toNat = lap := rfl
  have hhalf : (lapWord / 2).toNat = lap / 2 := rfl
  have hlt := offset_lt seqno initial checkpoint.toNat
  have hcheckpoint : checkpoint.toNat < indexLimit := checkpoint.toNat_lt
  have hcases := nearestIndex_cases seqno initial hcheckpoint
  have hoffset : (seqno.raw - (ofIndex checkpoint.toNat initial).raw).toUInt64.toNat =
      offset seqno initial checkpoint.toNat := UInt32.toNat_toUInt64 _
  rw [nearestWord?]
  generalize (seqno.raw - (ofIndex checkpoint.toNat initial).raw).toUInt64 = word at hoffset ⊢
  rw [← hoffset] at hcases hlt
  by_cases hlimit : checkpoint.toNat + word.toNat < indexLimit
  · obtain ⟨forward, hadd, hforward⟩ := addWords?_of_lt checkpoint word hlimit
    simp only [hadd, UInt64.le_iff_toNat_le, UInt64.lt_iff_toNat_lt, hlap, hhalf]
    split
    · exact ⟨forward, rfl, by omega⟩
    · obtain ⟨back, hsub, hback⟩ := subWords?_of_le forward lapWord (by omega)
      exact ⟨back, hsub, by omega⟩
  · have hadd : addWords? checkpoint word = none := if_neg hlimit
    obtain ⟨rest, hrest, hless⟩ := subWords?_of_le lapWord word (by omega)
    obtain ⟨back, hsub, hback⟩ := subWords?_of_le checkpoint rest (by
      simp only [indexLimit, lap] at *
      omega)
    simp only [hadd, hrest, Option.bind_some]
    exact ⟨back, hsub, by omega⟩

-- The index that is found is the nearest to the checkpoint of all that have 64 bits and the given
-- wire form, and the later one of two that are equally near. No sum and no difference on the way to
-- it leaves the 64 bits. So an index comes back from its wire form wherever the checkpoint lies less
-- than half a lap from it.
theorem finds_nearest (initial : SeqNo) (checkpoint : UInt64) :
    (∀ seqno, ∃ found : UInt64,
      nearestWord? seqno initial checkpoint = some found ∧
        nearestIndex seqno initial checkpoint.toNat = found.toNat ∧
        ofIndex found.toNat initial = seqno ∧
        ∀ other : UInt64, ofIndex other.toNat initial = seqno →
          ((found.toNat : Int) - checkpoint.toNat).natAbs ≤
              ((other.toNat : Int) - checkpoint.toNat).natAbs ∧
            (((found.toNat : Int) - checkpoint.toNat).natAbs =
                ((other.toNat : Int) - checkpoint.toNat).natAbs → other ≤ found)) ∧
      ∀ index : UInt64, ((index.toNat : Int) - checkpoint.toNat).natAbs < lap / 2 →
        nearestWord? (ofIndex index.toNat initial) initial checkpoint = some index ∧
          nearestIndex (ofIndex index.toNat initial) initial checkpoint.toNat = index.toNat := by
  refine ⟨fun seqno => ?_, fun index hnear => ?_⟩
  · have hcheckpoint : checkpoint.toNat < indexLimit := checkpoint.toNat_lt
    obtain ⟨found, hfound, hindex⟩ := nearestWord?_eq_some seqno initial checkpoint
    refine ⟨found, hfound, hindex.symm, ?_, fun other hother => ?_⟩
    · rw [hindex, ofIndex_nearestIndex seqno initial hcheckpoint]
    · rw [hindex, UInt64.le_iff_toNat_le, hindex]
      exact nearestIndex_nearest seqno initial hcheckpoint other.toNat_lt hother
  · have hback : nearestIndex (ofIndex index.toNat initial) initial checkpoint.toNat =
        index.toNat :=
      nearestIndex_of_near index.toNat checkpoint.toNat initial (by omega) (by omega)
        index.toNat_lt
    obtain ⟨found, hfound, hindex⟩ :=
      nearestWord?_eq_some (ofIndex index.toNat initial) initial checkpoint
    rw [hfound, UInt64.toNat.inj (hindex.trans hback)]
    exact ⟨rfl, hback⟩

-- Next to the end of the 64 bits the index a whole lap back is the nearest one left.
example : nearestWord? ⟨0⟩ ⟨0⟩ 18446744073709551615 = some 18446744069414584320 := by decide

end UserTcp.SeqNo
