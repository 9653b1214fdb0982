import UserTcp.Datagram.Word

namespace UserTcp.Datagram

-- The sum of the 16-bit words of some bytes. A single byte at the end is the high half
-- of a word.
def sumWords : List UInt8 → Nat
  | [] => 0
  | [high] => (word16 high 0).toNat
  | high :: low :: rest => (word16 high low).toNat + sumWords rest

-- Adds every carry out of 16 bits back in. What is left is the remainder by 65535,
-- where only an empty sum gives zero.
def foldCarries (sum : Nat) : Nat :=
  if sum = 0 then 0 else (sum - 1) % (65535) + 1

-- The Internet checksum: the complement of the sum with its carries.
def checksum (bytes : List UInt8) : UInt16 :=
  UInt16.ofNat (65535 - foldCarries (sumWords bytes))

theorem foldCarries_lt (sum : Nat) : foldCarries sum < 65536 := by
  unfold foldCarries
  split <;> omega

-- One carry added back does not change the result.
theorem foldCarries_carry (sum : Nat) (hsum : 65536 ≤ sum) :
    foldCarries (sum % 65536 + sum / 65536) = foldCarries sum := by
  unfold foldCarries
  split <;> split <;> omega

end UserTcp.Datagram
