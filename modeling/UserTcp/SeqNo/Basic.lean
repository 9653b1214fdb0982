namespace UserTcp

-- A sequence number as a segment carries it. An absolute index counts every sequence
-- number of one direction since its SYN, which has index 0; the wire holds that index
-- modulo 2 ^ 32, shifted by the initial sequence number.
structure SeqNo where
  raw : UInt32
  deriving DecidableEq, Inhabited

namespace SeqNo

-- How many indices pass before the wire repeats itself.
def lap : Nat := 4294967296

def indexLimit : Nat := 18446744073709551616

-- The wire form of an absolute index in a direction that started at `initial`.
def ofIndex (index : Nat) (initial : SeqNo) : SeqNo :=
  ⟨initial.raw + UInt32.ofNat index⟩

-- The absolute index nearest to `checkpoint` among those with this wire form.
-- Of two at the same distance the later one is taken. Next to the ends of the
-- index range there is a candidate on one side only.
def nearestIndex (seqno initial : SeqNo) (checkpoint : Nat) : Nat :=
  let offset := (seqno.raw - (ofIndex checkpoint initial).raw).toNat
  let forward := checkpoint + offset
  if forward < indexLimit ∧ (offset ≤ lap / 2 ∨ forward < lap) then forward
  else forward - lap

def advance (seqno : SeqNo) (count : UInt32) : SeqNo :=
  ⟨seqno.raw + count⟩

def render (seqno : SeqNo) : String :=
  toString seqno.raw.toNat

theorem toNat_raw_ofIndex (index : Nat) (initial : SeqNo) :
    (ofIndex index initial).raw.toNat = (initial.raw.toNat + index) % lap := by
  simp only [ofIndex, lap, UInt32.toNat_add, UInt32.toNat_ofNat']
  omega

-- Indices a whole number of laps apart share their wire form.
theorem ofIndex_add_lap (index laps : Nat) (initial : SeqNo) :
    ofIndex (index + laps * lap) initial = ofIndex index initial := by
  simp only [ofIndex, mk.injEq, lap, ← UInt32.toNat_inj, UInt32.toNat_add, UInt32.toNat_ofNat']
  omega

theorem ofIndex_add (index count : Nat) (initial : SeqNo) :
    ofIndex (index + count) initial = (ofIndex index initial).advance (UInt32.ofNat count) := by
  simp only [ofIndex, advance, mk.injEq, ← UInt32.toNat_inj, UInt32.toNat_add,
    UInt32.toNat_ofNat']
  omega

end SeqNo

end UserTcp
