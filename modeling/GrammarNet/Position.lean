/-!
# Signed positions

Positions in a table counted from either end: `i` counts from the front, and `-k` counts from the back.
-/

namespace GrammarNet

/-- The place in a table of `size` entries that `i` names, if there is one. -/
def position? (size : Nat) (i : Int) : Option Nat :=
  if 0 ≤ i then
    if i < size then some i.toNat else none
  else if -size ≤ i then some (size + i).toNat
  else none

/-- The place at which an entry inserted at `i` ends up: positions beyond either end are moved to that end. -/
def insertionPoint (size : Nat) (i : Int) : Nat :=
  if 0 ≤ i then min i.toNat size else (size + i).toNat

/-- Whether `i` can be a position at all: positions are signed words of 64 bits. -/
def addressable (i : Int) : Bool := decide (-9223372036854775808 ≤ i ∧ i ≤ 9223372036854775807)

theorem position?_lt {size place : Nat} {i : Int} (found : position? size i = some place) :
    place < size := by
  unfold position? at found
  split at found
  · split at found
    · injection found with placeEq
      omega
    · contradiction
  · split at found
    · injection found with placeEq
      omega
    · contradiction

theorem insertionPoint_le (size : Nat) (i : Int) : insertionPoint size i ≤ size := by
  unfold insertionPoint
  split <;> omega

end GrammarNet
