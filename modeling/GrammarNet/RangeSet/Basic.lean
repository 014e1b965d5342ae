import GrammarNet.Symbol

/-!
# Sets of symbols

Sets of symbols as lists of half-open ranges. A set that was never filled has no list at all; a set that was emptied
has an empty one. `insert` merges a range into the list, and `x ∈ s` says that some range of the list holds `x`.
-/

namespace GrammarNet

/-! ## Ranges -/

/-- The half-open range of the integers from `start` up to, and without, `stop`. It is inverted when `stop` is the
smaller of the two, and then holds nothing. -/
structure Range where
  start : Int
  stop : Int
  deriving DecidableEq, Repr, Inhabited

namespace Range

instance : Membership Int Range where
  mem r x := r.start ≤ x ∧ x < r.stop

instance (x : Int) (r : Range) : Decidable (x ∈ r) :=
  inferInstanceAs (Decidable (r.start ≤ x ∧ x < r.stop))

theorem mem_iff {x : Int} {r : Range} : x ∈ r ↔ r.start ≤ x ∧ x < r.stop := Iff.rfl

/-- The range that holds `x` alone. -/
def single (x : Int) : Range := ⟨x, x + 1⟩

/-- The number of integers in a range. -/
def length (r : Range) : Nat := (r.stop - r.start).toNat

end Range

/-! ## Lists of ranges -/

/-- Puts a range in front of others. It swallows those that end no later than itself; it is joined to the first one
that it overlaps or touches but does not swallow, and goes no further. -/
def absorb (first : Range) : List Range → List Range
  | [] => [first]
  | second :: rest =>
      if second.stop ≤ first.stop then absorb first rest
      else if second.start ≤ first.stop then ⟨first.start, second.stop⟩ :: rest
      else first :: second :: rest

/-- Merges `v` into a list of ranges: in front of the first range that it neither touches nor follows, or into the
first range that it touches. -/
def insertRange (v : Range) : List Range → List Range
  | [] => [v]
  | i :: rest =>
      if v.stop < i.start then v :: i :: rest
      else if v.stop = i.start then ⟨v.start, i.stop⟩ :: rest
      else if v.start ≤ i.stop then absorb ⟨min i.start v.start, max i.stop v.stop⟩ rest
      else i :: insertRange v rest

/-! ## Sets -/

/-- A set of symbols. `ranges?` is absent as long as the set was never filled; a `frozen` set refuses edits. -/
structure RangeSet where
  ranges? : Option (List Range) := none
  frozen : Bool := false
  deriving DecidableEq, Repr, Inhabited

namespace RangeSet

/-- The set that was never filled. -/
def empty : RangeSet := {}

/-- The ranges of a set, in the order in which it keeps them. -/
def ranges (s : RangeSet) : List Range := s.ranges?.getD []

instance : Membership Int RangeSet where
  mem s x := ∃ r ∈ s.ranges, x ∈ r

/-- Whether some range of the set holds `x`. -/
def contains (s : RangeSet) (x : Int) : Bool := s.ranges.any fun r => decide (x ∈ r)

theorem mem_iff {x : Int} {s : RangeSet} : x ∈ s ↔ ∃ r ∈ s.ranges, x ∈ r := Iff.rfl

theorem contains_iff {s : RangeSet} {x : Int} : s.contains x = true ↔ x ∈ s := by
  simp [contains, mem_iff]

instance (x : Int) (s : RangeSet) : Decidable (x ∈ s) :=
  decidable_of_iff (s.contains x = true) contains_iff

/-- Adds the integers of a range. -/
def insertRange (s : RangeSet) (v : Range) : RangeSet :=
  { s with ranges? := some (GrammarNet.insertRange v s.ranges) }

/-- Adds one integer. -/
def insert (s : RangeSet) (x : Int) : RangeSet := s.insertRange (.single x)

/-- Adds the ranges of another set one after the other. -/
def union (s other : RangeSet) : RangeSet := other.ranges.foldl insertRange s

/-- The set that arises when the given ranges are added in their order. -/
def ofRanges (ranges : List Range) : RangeSet := ranges.foldl insertRange empty

/-- The set that arises when the given symbols are added in their order. -/
def ofList (symbols : List Int) : RangeSet := symbols.foldl insert empty

/-- The set that holds `x` alone. -/
def singleton (x : Int) : RangeSet := empty.insert x

/-- A copy that refuses edits. A copy of an emptied set is a set that was never filled. -/
def freeze (s : RangeSet) : RangeSet where
  ranges? := if s.ranges = [] then none else s.ranges?
  frozen := true

end RangeSet

end GrammarNet
