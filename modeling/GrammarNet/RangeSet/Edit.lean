import GrammarNet.Position
import GrammarNet.RangeSet.Removal

/-!
# Edits

Edits of a symbol set as values. A frozen set refuses all of them and stays as it is.
-/

namespace GrammarNet

/-- Adds to a list of ranges its own ranges, read one position after the other from the list as it grows or shrinks.
Each range is inserted at most once in front of itself, so `steps` twice the length suffices. -/
def insertOwnRanges : (steps position : Nat) → List Range → List Range
  | 0, _, ranges => ranges
  | steps + 1, position, ranges =>
      match ranges[position]? with
      | none => ranges
      | some r => insertOwnRanges steps (position + 1) (insertRange r ranges)

/-- Lets the range at position `k` absorb the ranges after it. Positions may count from the end, and a position that
runs out of the list on the way is a fault, after the ranges absorbed so far are gone. -/
def absorbAt (k : Int) (ranges : List Range) : List Range × Except Fault Unit :=
  if k < ranges.length - 1 then
    match placeFound : position? ranges.length k, nextFound : position? ranges.length (k + 1) with
    | some place, some next =>
        have := position?_lt placeFound
        have := position?_lt nextFound
        let first := ranges[place]
        let second := ranges[next]
        if second.stop ≤ first.stop then absorbAt k (ranges.eraseIdx next)
        else if second.start ≤ first.stop then
          ((ranges.set place ⟨first.start, second.stop⟩).eraseIdx next, .ok ())
        else (ranges, .ok ())
    | _, _ => (ranges, .error .outOfRange)
  else (ranges, .ok ())
termination_by ranges.length
decreasing_by
  rw [List.length_eraseIdx_of_lt (position?_lt nextFound)]
  omega

/-- An edit of a symbol set. -/
inductive Edit where
  | insert (x : Int)
  | insertRange (v : Range)
  /-- The union with a set. Where there is none, a set that can be edited refuses as well. -/
  | union (other : Option RangeSet)
  /-- The union of a set with itself. -/
  | unionSelf
  | erase (x : Int)
  | eraseRange (v : Range)
  /-- The range at a position absorbs those after it. -/
  | absorb (k : Int)

namespace Edit

/-- What an edit makes of a set that is not frozen, and whether it ran to its end. -/
def perform : Edit → RangeSet → RangeSet × Except Fault Unit
  | insert x, s => (s.insert x, .ok ())
  | insertRange v, s => (s.insertRange v, .ok ())
  | union (some other), s => (s.union other, .ok ())
  | union none, s => (s, .error .noAttribute)
  | unionSelf, s =>
      ({ s with ranges? := s.ranges?.map fun ranges => insertOwnRanges (2 * ranges.length + 1) 0 ranges }, .ok ())
  | erase x, s => (s.erase x, .ok ())
  | eraseRange v, s => (s.eraseRange v, .ok ())
  | absorb k, s =>
      match s.ranges? with
      | none => (s, .error .unfilledSet)
      | some ranges =>
          let (rest, outcome) := absorbAt k ranges
          ({ s with ranges? := some rest }, outcome)

/-- What an edit makes of a set, and whether it ran to its end. -/
def apply (edit : Edit) (s : RangeSet) : RangeSet × Except Fault Unit :=
  if s.frozen then (s, .error .frozenSet) else edit.perform s

theorem apply_frozen {s : RangeSet} (frozen : s.frozen = true) (edit : Edit) :
    edit.apply s = (s, .error .frozenSet) := by
  simp [apply, frozen]

end Edit

end GrammarNet
