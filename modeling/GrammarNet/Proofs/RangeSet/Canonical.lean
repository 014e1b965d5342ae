import GrammarNet.Proofs.RangeSet.Ascending

/-!
# Canonical lists of ranges

A list of ranges is canonical if each range holds something and ends, with a gap, before the next begins. There is one
canonical list for the integers that it covers.
-/

namespace GrammarNet

/-- The ranges hold something, and each ends before the later ones begin, without touching them. -/
structure Canonical (ranges : List Range) : Prop where
  filled : ∀ r ∈ ranges, r.start < r.stop
  apart : ranges.Pairwise fun r s => r.stop < s.start

section Canonical

variable {bound x : Int} {r s : Range} {ranges others rest later : List Range}

theorem AscendingFrom.apart (ascending : AscendingFrom bound ranges) : ranges.Pairwise fun r s => r.stop < s.start := by
  induction ranges generalizing bound with
  | nil => exact List.Pairwise.nil
  | cons r rest inductionHypothesis =>
      obtain ⟨_, _, beyond⟩ := ascending
      apply List.Pairwise.cons
      · exact fun s member => beyond.bound_lt_start member
      · exact inductionHypothesis beyond

theorem AscendingFrom.canonical (ascending : AscendingFrom bound ranges) (filled : ∀ r ∈ ranges, r.start < r.stop) :
    Canonical ranges :=
  ⟨filled, ascending.apart⟩

theorem Canonical.tail (canonical : Canonical (r :: rest)) : Canonical rest :=
  ⟨fun s member => canonical.filled s (List.mem_cons_of_mem r member), canonical.apart.of_cons⟩

theorem Canonical.stop_lt (canonical : Canonical (r :: rest)) (covered : Covers rest x) : r.stop < x := by
  obtain ⟨s, member, inside⟩ := covered
  have gap := (List.pairwise_cons.mp canonical.apart).1 s member
  exact Int.lt_of_lt_of_le gap (Range.mem_iff.mp inside).1

theorem Canonical.start_le (canonical : Canonical (r :: rest)) (covered : Covers (r :: rest) x) : r.start ≤ x := by
  rcases (covers_cons r rest x).mp covered with inside | inRest
  · exact (Range.mem_iff.mp inside).1
  · have filled := canonical.filled r List.mem_cons_self
    have beyond := canonical.stop_lt inRest
    omega

theorem Canonical.covers_start (canonical : Canonical (r :: rest)) : Covers (r :: rest) r.start := by
  apply (covers_cons r rest r.start).mpr
  exact Or.inl ⟨Int.le_refl _, canonical.filled r List.mem_cons_self⟩

theorem Canonical.eq_nil_iff (canonical : Canonical ranges) : ranges = [] ↔ ∀ x, ¬ Covers ranges x := by
  constructor
  · rintro rfl
    exact covers_nil
  · intro nothing
    cases ranges with
    | nil => rfl
    | cons r rest => exact absurd canonical.covers_start (nothing r.start)

/-- The first range of a canonical list ends no earlier than the first one of another for the same integers. -/
theorem Canonical.stop_le
    (canonical : Canonical (r :: rest)) (start : r.start = s.start)
    (covered : ∀ x, Covers (s :: later) x → Covers (r :: rest) x) : s.stop ≤ r.stop := by
  apply Int.not_lt.mp
  intro short
  have filled := canonical.filled r List.mem_cons_self
  -- The integer at which the shorter range ends is covered by none of the ranges after it.
  have inside : r.stop ∈ s := ⟨by omega, by omega⟩
  rcases (covers_cons r rest r.stop).mp (covered r.stop ((covers_cons s later r.stop).mpr (Or.inl inside))) with
    here | inRest
  · exact Int.lt_irrefl _ (Range.mem_iff.mp here).2
  · exact Int.lt_irrefl _ (canonical.stop_lt inRest)

/-- Canonical lists that cover the same integers are the same. -/
theorem Canonical.eq_of_covers
    (canonical : Canonical ranges) (also : Canonical others) (same : ∀ x, Covers ranges x ↔ Covers others x) :
    ranges = others := by
  induction ranges generalizing others with
  | nil =>
      cases others with
      | nil => rfl
      | cons s later => exact absurd ((same s.start).mpr also.covers_start) (covers_nil s.start)
  | cons r rest inductionHypothesis =>
      cases others with
      | nil => exact absurd ((same r.start).mp canonical.covers_start) (covers_nil r.start)
      | cons s later =>
          have start : r.start = s.start := by
            apply Int.le_antisymm
            · exact canonical.start_le ((same s.start).mpr also.covers_start)
            · exact also.start_le ((same r.start).mp canonical.covers_start)
          have stop : r.stop = s.stop := by
            apply Int.le_antisymm
            · exact also.stop_le start.symm fun x => (same x).mp
            · exact canonical.stop_le start fun x => (same x).mpr
          have first : r = s := by
            obtain ⟨_, _⟩ := r
            obtain ⟨_, _⟩ := s
            simp only at start stop
            rw [start, stop]
          subst first
          have sameRest : ∀ x, Covers rest x ↔ Covers later x := by
            intro x
            have here := same x
            rw [covers_cons, covers_cons] at here
            constructor
            · intro covered
              apply (here.mp (Or.inr covered)).resolve_left
              exact fun inside => Int.lt_asymm (Range.mem_iff.mp inside).2 (canonical.stop_lt covered)
            · intro covered
              apply (here.mpr (Or.inr covered)).resolve_left
              exact fun inside => Int.lt_asymm (Range.mem_iff.mp inside).2 (also.stop_lt covered)
          rw [inductionHypothesis canonical.tail also.tail sameRest]

/-- Taking an integer out of ranges that hold something leaves no empty range. -/
theorem eraseFromRanges_filled (filled : ∀ r ∈ ranges, r.start < r.stop) :
    ∀ r ∈ eraseFromRanges x ranges, r.start < r.stop := by
  induction ranges with
  | nil => exact filled
  | cons i rest inductionHypothesis =>
      obtain ⟨here, others⟩ := List.forall_mem_cons.mp filled
      unfold eraseFromRanges
      by_cases before : x < i.start
      · rw [if_pos before]
        exact filled
      rw [if_neg before]
      by_cases alone : x = i.start ∧ x = i.stop - 1
      · rw [if_pos alone]
        exact others
      rw [if_neg alone]
      by_cases first : x = i.start
      · rw [if_pos first]
        exact List.forall_mem_cons.mpr ⟨by simp only; omega, others⟩
      rw [if_neg first]
      by_cases last : x = i.stop - 1
      · rw [if_pos last]
        exact List.forall_mem_cons.mpr ⟨by simp only; omega, others⟩
      rw [if_neg last]
      by_cases inside : x < i.stop - 1
      · rw [if_pos inside]
        exact List.forall_mem_cons.mpr ⟨by simp only; omega, List.forall_mem_cons.mpr ⟨by simp only; omega, others⟩⟩
      · rw [if_neg inside]
        exact List.forall_mem_cons.mpr ⟨here, inductionHypothesis others⟩

end Canonical

/-! ## Sets that were only added to -/

namespace RangeSet

/-- The set can be edited, and nothing was taken out of it: without ranges, it was never filled. -/
structure Added (s : RangeSet) : Prop where
  editable : s.frozen = false
  unemptied : s.ranges? ≠ some []

section Added

variable {s other : RangeSet}

theorem added_empty : RangeSet.empty.Added := ⟨rfl, nofun⟩

theorem Added.insertRange (added : s.Added) (v : Range) : (s.insertRange v).Added where
  editable := added.editable
  unemptied := by
    intro emptied
    injection emptied with emptied
    have swallows : ∀ (rest : List Range) (first : Range), absorb first rest ≠ [] := by
      intro rest
      induction rest with
      | nil => exact fun first => List.cons_ne_nil _ _
      | cons second rest inductionHypothesis =>
          intro first
          unfold absorb
          split
          · exact inductionHypothesis first
          · split <;> exact List.cons_ne_nil _ _
    revert emptied
    show GrammarNet.insertRange v s.ranges ≠ []
    cases s.ranges with
    | nil => exact List.cons_ne_nil _ _
    | cons i rest =>
        unfold GrammarNet.insertRange
        repeat' split
        · exact List.cons_ne_nil _ _
        · exact List.cons_ne_nil _ _
        · exact swallows rest _
        · exact List.cons_ne_nil _ _

theorem Added.union (added : s.Added) (other : RangeSet) : (s.union other).Added := by
  unfold RangeSet.union
  induction other.ranges generalizing s with
  | nil => exact added
  | cons v rest inductionHypothesis => exact inductionHypothesis (added.insertRange v)

theorem Added.ranges?_eq_none_iff (added : s.Added) : s.ranges? = none ↔ s.ranges = [] := by
  have unemptied := added.unemptied
  unfold ranges
  cases kept : s.ranges? with
  | none => simp
  | some ranges =>
      rw [kept] at unemptied
      simp only [Option.getD_some, reduceCtorEq, false_iff]
      exact fun empty => unemptied (congrArg some empty)

theorem Added.eq_of_ranges (added : s.Added) (also : other.Added) (same : s.ranges = other.ranges) : s = other := by
  have here := added.ranges?_eq_none_iff
  have there := also.ranges?_eq_none_iff
  have filled : s.ranges? = other.ranges? := by
    cases kept : s.ranges? with
    | none => exact (there.mpr (same.symm.trans (here.mp kept))).symm
    | some held =>
        cases alsoKept : other.ranges? with
        | none => exact absurd (here.mpr (same.trans (there.mp alsoKept))) (kept ▸ Option.some_ne_none held)
        | some others =>
            unfold ranges at same
            rw [kept, alsoKept] at same
            exact congrArg some same
  have editable := added.editable.trans also.editable.symm
  obtain ⟨_, _⟩ := s
  obtain ⟨_, _⟩ := other
  simp only at filled editable
  rw [filled, editable]

end Added

end RangeSet

end GrammarNet
