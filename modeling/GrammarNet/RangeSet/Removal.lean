import GrammarNet.Fault
import GrammarNet.RangeSet.Basic

/-!
# Removal and complement

Taking symbols out of a set, and the complement within an interval.
-/

namespace GrammarNet

/-- Takes `x` out of the first range that ends beyond it, splitting the range if `x` is inside. -/
def eraseFromRanges (x : Int) : List Range → List Range
  | [] => []
  | i :: rest =>
      if x < i.start then i :: rest
      else if x = i.start ∧ x = i.stop - 1 then rest
      else if x = i.start then ⟨i.start + 1, i.stop⟩ :: rest
      else if x = i.stop - 1 then ⟨i.start, i.stop - 1⟩ :: rest
      else if x < i.stop - 1 then ⟨i.start, x⟩ :: ⟨x + 1, i.stop⟩ :: rest
      else i :: eraseFromRanges x rest

/-- Cuts `v` out of a list of ranges of which `rest` is still to be examined. What a cut leaves of the examined range
is written to the first range that waits in `behind`, which holds one range for each that was dropped so far; dropping
a range passes over the one that comes next. -/
def cutFromRanges (v : Range) (behind : List Range) : List Range → List Range
  | [] => behind
  | i :: rest =>
      if v.stop ≤ i.start then behind ++ i :: rest
      else if i.start < v.start ∧ v.stop < i.stop then
        ⟨v.stop, i.stop⟩ :: ⟨i.start, v.start⟩ :: ((behind ++ [i]).tail ++ rest)
      else if v.start ≤ i.start ∧ i.stop ≤ v.stop then
        match rest with
        | [] => (behind ++ [i]).tail
        | next :: later => cutFromRanges v ((behind ++ [i]).tail ++ [next]) later
      else if v.start < i.stop then
        ⟨i.start, v.start⟩ :: cutFromRanges v (behind ++ [i]).tail rest
      else if v.stop < i.stop then
        ⟨v.stop, i.stop⟩ :: cutFromRanges v (behind ++ [i]).tail rest
      else behind.headD i :: cutFromRanges v (behind ++ [i]).tail rest

namespace RangeSet

/-- Takes one integer out. -/
def erase (s : RangeSet) (x : Int) : RangeSet :=
  { s with ranges? := s.ranges?.map (eraseFromRanges x) }

/-- Takes the integers of a range out. A range of one integer is taken out as that integer. -/
def eraseRange (s : RangeSet) (v : Range) : RangeSet :=
  if v.start = v.stop - 1 then s.erase v.start
  else { s with ranges? := s.ranges?.map (cutFromRanges v []) }

/-- The interval from `first` to `last`, both included, from which the ranges of the set are taken out one after the
other. -/
def complement (s : RangeSet) (first last : Int) : Except Fault RangeSet :=
  match s.ranges? with
  | none => .error .unfilledSet
  | some ranges => .ok (ranges.foldl eraseRange (empty.insertRange ⟨first, last + 1⟩))

end RangeSet

end GrammarNet
