import UserTcp.SeqNo.Basic

namespace UserTcp.SeqNo

theorem ofIndex_zero (initial : SeqNo) : ofIndex 0 initial = initial :=
  congrArg mk (UInt32.add_zero initial.raw)

-- How far the wire form of an index lies past that of the checkpoint. The distance of two
-- words is that of their indices up to whole laps.
theorem toNat_raw_sub_of_ahead (index checkpoint : Nat) (initial : SeqNo)
    (hle : checkpoint ≤ index) (hlap : index - checkpoint < lap) :
    ((ofIndex index initial).raw - (ofIndex checkpoint initial).raw).toNat =
      index - checkpoint := by
  have hindex := toNat_raw_ofIndex index initial
  have hcheckpoint := toNat_raw_ofIndex checkpoint initial
  rw [UInt32.toNat_sub, hindex, hcheckpoint]
  simp only [lap] at *
  omega

theorem toNat_raw_sub_of_behind (index checkpoint : Nat) (initial : SeqNo)
    (hlt : index < checkpoint) (hlap : checkpoint - index < lap) :
    ((ofIndex index initial).raw - (ofIndex checkpoint initial).raw).toNat =
      index + lap - checkpoint := by
  have hindex := toNat_raw_ofIndex index initial
  have hcheckpoint := toNat_raw_ofIndex checkpoint initial
  rw [UInt32.toNat_sub, hindex, hcheckpoint]
  simp only [lap] at *
  omega

-- Two indices less than a lap apart differ on the wire.
theorem ofIndex_inj {index other : Nat} {initial : SeqNo}
    (hsame : ofIndex index initial = ofIndex other initial) (hle : index ≤ other)
    (hlap : other - index < lap) : index = other := by
  have hahead := toNat_raw_sub_of_ahead other index initial hle hlap
  rw [hsame, UInt32.sub_self, UInt32.toNat_zero] at hahead
  omega

-- An index up to half a lap ahead of the checkpoint is found again. Past the end of the
-- index range its place is taken by the one a lap before.
theorem nearestIndex_of_ahead (index checkpoint : Nat) (initial : SeqNo)
    (hle : checkpoint ≤ index) (hhalf : index - checkpoint ≤ lap / 2) :
    nearestIndex (ofIndex index initial) initial checkpoint =
      if index < indexLimit then index else index - lap := by
  have hlap : index - checkpoint < lap := by
    simp only [lap] at *
    omega
  simp only [nearestIndex, toNat_raw_sub_of_ahead index checkpoint initial hle hlap,
    Nat.add_sub_cancel' hle, hhalf, true_or, and_true]

theorem nearestIndex_of_behind (index checkpoint : Nat) (initial : SeqNo)
    (hlt : index < checkpoint) (hhalf : checkpoint - index < lap / 2) :
    nearestIndex (ofIndex index initial) initial checkpoint = index := by
  have hlap : checkpoint - index < lap := by
    simp only [lap] at *
    omega
  have hforward : checkpoint + (index + lap - checkpoint) = index + lap := by omega
  have hback : ¬ (index + lap < indexLimit ∧
      (index + lap - checkpoint ≤ lap / 2 ∨ index + lap < lap)) := by
    simp only [lap] at *
    omega
  simp only [nearestIndex, toNat_raw_sub_of_behind index checkpoint initial hlt hlap, hforward,
    if_neg hback, Nat.add_sub_cancel]

-- Within half a lap an index is found again or, at the end of the index range only, taken
-- for one that lies a whole lap before it.
theorem nearestIndex_ofIndex (index checkpoint : Nat) (initial : SeqNo)
    (hahead : index ≤ checkpoint + lap / 2) (hbehind : checkpoint < index + lap / 2) :
    nearestIndex (ofIndex index initial) initial checkpoint = index ∨
      checkpoint ≤ index ∧ lap ≤ index ∧
        nearestIndex (ofIndex index initial) initial checkpoint + lap = index := by
  cases Nat.lt_or_ge index checkpoint with
  | inl hlt => exact .inl (nearestIndex_of_behind index checkpoint initial hlt (by omega))
  | inr hle =>
      rw [nearestIndex_of_ahead index checkpoint initial hle (by omega)]
      by_cases hlimit : index < indexLimit
      · exact .inl (if_pos hlimit)
      · rw [if_neg hlimit]
        simp only [indexLimit, lap] at *
        omega

-- An index that has 64 bits is found again from everywhere within half a lap.
theorem nearestIndex_of_near (index checkpoint : Nat) (initial : SeqNo)
    (hahead : index ≤ checkpoint + lap / 2) (hbehind : checkpoint < index + lap / 2)
    (hlimit : index < indexLimit) :
    nearestIndex (ofIndex index initial) initial checkpoint = index := by
  cases Nat.lt_or_ge index checkpoint with
  | inl hlt => exact nearestIndex_of_behind index checkpoint initial hlt (by omega)
  | inr hle => rw [nearestIndex_of_ahead index checkpoint initial hle (by omega), if_pos hlimit]

theorem nearestIndex_of_le (index checkpoint : Nat) (initial : SeqNo) (hle : index ≤ checkpoint)
    (hbehind : checkpoint < index + lap / 2) (hlimit : checkpoint < indexLimit) :
    nearestIndex (ofIndex index initial) initial checkpoint = index :=
  nearestIndex_of_near index checkpoint initial (by omega) hbehind (by omega)

theorem nearestIndex_le (index checkpoint : Nat) (initial : SeqNo)
    (hle : index ≤ checkpoint) (hbehind : checkpoint < index + lap / 2) :
    nearestIndex (ofIndex index initial) initial checkpoint ≤ index := by
  have hcases := nearestIndex_ofIndex index checkpoint initial (by omega) hbehind
  omega

end UserTcp.SeqNo
