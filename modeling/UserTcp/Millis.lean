namespace UserTcp

-- A count of milliseconds, in the 64 bits that every clock and timeout here has.
abbrev Millis := UInt64

-- Why a sum or a product of such counts could not be formed: it fits no 64 bits.
inductive Overflow where
  | sum
  | product
  deriving DecidableEq

def Overflow.message : Overflow → String
  | .sum => "attempt to add with overflow"
  | .product => "attempt to multiply with overflow"

namespace Millis

def ceiling : Millis := 18446744073709551615

-- A sum that stays at the ceiling when it would pass it.
def addCapped (total more : Millis) : Millis :=
  if total.toNat + more.toNat ≤ ceiling.toNat then total + more else ceiling

def doubleCapped (count : Millis) : Millis :=
  addCapped count count

-- A sum that has to fit.
def addChecked (total more : Millis) : Except Overflow Millis :=
  if total.toNat + more.toNat ≤ ceiling.toNat then .ok (total + more) else .error .sum

-- A product that has to fit.
def mulChecked (count factor : Millis) : Except Overflow Millis :=
  if count.toNat * factor.toNat ≤ ceiling.toNat then .ok (count * factor) else .error .product

theorem toNat_ceiling : ceiling.toNat = 18446744073709551615 := rfl

theorem le_ceiling (count : Millis) : count.toNat ≤ ceiling.toNat := by
  have hcount := UInt64.toNat_lt count
  rw [toNat_ceiling]
  omega

-- A sum or a product that could be formed is the right one.
theorem addChecked_eq_ok_iff {total more sum : Millis} :
    addChecked total more = .ok sum ↔ sum.toNat = total.toNat + more.toNat := by
  have hsum := UInt64.toNat_lt sum
  unfold addChecked
  split
  · rename_i hfits
    rw [toNat_ceiling] at hfits
    rw [Except.ok.injEq, ← UInt64.toNat_inj, UInt64.toNat_add]
    omega
  · rename_i hlost
    rw [toNat_ceiling] at hlost
    exact ⟨nofun, fun hsame => by omega⟩

theorem mulChecked_eq_ok_iff {count factor product : Millis} :
    mulChecked count factor = .ok product ↔ product.toNat = count.toNat * factor.toNat := by
  have hproduct := UInt64.toNat_lt product
  unfold mulChecked
  split
  · rename_i hfits
    rw [toNat_ceiling] at hfits
    rw [Except.ok.injEq, ← UInt64.toNat_inj, UInt64.toNat_mul]
    omega
  · rename_i hlost
    rw [toNat_ceiling] at hlost
    exact ⟨nofun, fun hsame => by omega⟩

theorem toNat_addCapped (total more : Millis) :
    (addCapped total more).toNat = min (total.toNat + more.toNat) ceiling.toNat := by
  by_cases h : total.toNat + more.toNat ≤ ceiling.toNat
  · rw [addCapped, if_pos h, UInt64.toNat_add, Nat.min_eq_left h]
    rw [toNat_ceiling] at h
    omega
  · rw [addCapped, if_neg h, Nat.min_eq_right (by omega)]

theorem toNat_doubleCapped (count : Millis) :
    (doubleCapped count).toNat = min (2 * count.toNat) ceiling.toNat := by
  rw [doubleCapped, toNat_addCapped, Nat.two_mul]

end Millis

end UserTcp
