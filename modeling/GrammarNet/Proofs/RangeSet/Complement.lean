import GrammarNet.Proofs.RangeSet.Ascending

/-!
# The complement of an ascending set

The complement of a set within an interval is found by taking its ranges out of the interval one after the other.
What is left lies in pieces that begin before the next range to be taken out, as long as no range covers the first
integer of the interval together with a neighbour of it. Such a range is not taken out properly: nothing that it
leaves standing survives.
-/

namespace GrammarNet

/-! ## Taking one range out of a list -/

/-- What taking a range out of a filled set does to its ranges. -/
def removeFromRanges (ranges : List Range) (v : Range) : List Range :=
  if v.start = v.stop - 1 then eraseFromRanges v.start ranges else cutFromRanges v [] ranges

theorem RangeSet.eraseRange_filled (ranges : List Range) (frozen : Bool) (v : Range) :
    RangeSet.eraseRange ⟨some ranges, frozen⟩ v = ⟨some (removeFromRanges ranges v), frozen⟩ := by
  unfold RangeSet.eraseRange removeFromRanges RangeSet.erase
  split <;> rfl

theorem RangeSet.foldl_eraseRange_filled (removed ranges : List Range) (frozen : Bool) :
    removed.foldl RangeSet.eraseRange ⟨some ranges, frozen⟩ =
      ⟨some (removed.foldl removeFromRanges ranges), frozen⟩ := by
  induction removed generalizing ranges with
  | nil => rfl
  | cons v rest inductionHypothesis =>
      rw [List.foldl_cons, RangeSet.eraseRange_filled, inductionHypothesis, List.foldl_cons]

/-! ## Pieces that begin before what is taken out -/

namespace Range

/-- One range begins no earlier and ends no later than another. -/
def Within (r s : Range) : Prop := s.start ≤ r.start ∧ r.stop ≤ s.stop

/-- Two ranges of which one ends before the other begins. -/
def Apart (r s : Range) : Prop := r.stop ≤ s.start ∨ s.stop ≤ r.start

theorem Within.refl (r : Range) : r.Within r := ⟨Int.le_refl _, Int.le_refl _⟩

theorem Apart.symm {r s : Range} (apart : r.Apart s) : s.Apart r := Or.symm apart

theorem Apart.within {r s part : Range} (apart : r.Apart s) (within : part.Within r) : part.Apart s := by
  simp only [Apart, Within] at apart within ⊢
  omega

end Range

/-- Ranges in any order that hold something, have nothing in common, and begin no later than `limit`. -/
structure Pieces (limit : Int) (ranges : List Range) : Prop where
  begins : ∀ r ∈ ranges, r.start ≤ limit
  filled : ∀ r ∈ ranges, r.start < r.stop
  apart : ranges.Pairwise Range.Apart

namespace Pieces

variable {limit : Int} {first v : Range} {ranges : List Range}

theorem nil (limit : Int) : Pieces limit [] where
  begins := by simp
  filled := by simp
  apart := List.Pairwise.nil

theorem cons_iff :
    Pieces limit (first :: ranges) ↔
      first.start ≤ limit ∧ first.start < first.stop ∧ (∀ r ∈ ranges, first.Apart r) ∧ Pieces limit ranges := by
  constructor
  · rintro ⟨begins, filled, apart⟩
    obtain ⟨firstApart, apart⟩ := List.pairwise_cons.mp apart
    simp only [List.mem_cons, forall_eq_or_imp] at begins filled
    exact ⟨begins.1, filled.1, firstApart, begins.2, filled.2, apart⟩
  · rintro ⟨firstBegins, firstFilled, firstApart, begins, filled, apart⟩
    refine ⟨?_, ?_, List.pairwise_cons.mpr ⟨firstApart, apart⟩⟩
    · simpa only [List.mem_cons, forall_eq_or_imp] using ⟨firstBegins, begins⟩
    · simpa only [List.mem_cons, forall_eq_or_imp] using ⟨firstFilled, filled⟩

theorem weaken (pieces : Pieces limit ranges) {later : Int} (beyond : limit ≤ later) : Pieces later ranges where
  begins := fun r member => by
    have begins := pieces.begins r member
    omega
  filled := pieces.filled
  apart := pieces.apart

/-- What is covered by pieces apart from a range is not in that range. -/
theorem not_mem_of_apart (apart : ∀ r ∈ ranges, first.Apart r) {x : Int} (inside : x ∈ first) :
    ¬ Covers ranges x := by
  rintro ⟨r, member, covered⟩
  have distinct := apart r member
  simp only [Range.Apart] at distinct
  simp only [Range.mem_iff] at inside covered
  omega

end Pieces

/-- Each range of the one list lies within a range of the other. -/
def Refines (fine coarse : List Range) : Prop :=
  ∀ r ∈ fine, ∃ old ∈ coarse, r.Within old

namespace Refines

variable {fine coarse : List Range} {first r : Range}

theorem refl (ranges : List Range) : Refines ranges ranges :=
  fun r member => ⟨r, member, Range.Within.refl r⟩

theorem apart (refines : Refines fine coarse) (apart : ∀ s ∈ coarse, first.Apart s) :
    ∀ s ∈ fine, first.Apart s := by
  intro s member
  obtain ⟨old, oldMember, within⟩ := refines s member
  exact ((apart old oldMember).symm.within within).symm

theorem cons (refines : Refines fine coarse) (within : r.Within first) :
    Refines (r :: fine) (first :: coarse) := by
  intro s member
  rcases List.mem_cons.mp member with rfl | member
  · exact ⟨first, List.mem_cons_self, within⟩
  · obtain ⟨old, oldMember, within⟩ := refines s member
    exact ⟨old, List.mem_cons_of_mem first oldMember, within⟩

theorem add (refines : Refines fine (first :: coarse)) (within : r.Within first) :
    Refines (r :: fine) (first :: coarse) := by
  intro s member
  rcases List.mem_cons.mp member with rfl | member
  · exact ⟨first, List.mem_cons_self, within⟩
  · exact refines s member

end Refines

namespace Pieces

variable {limit later : Int} {first r : Range} {fine ranges : List Range}

/-- A part of the first piece in front of what became of the others. -/
theorem cons_part
    (pieces : Pieces limit (first :: ranges)) (finePieces : Pieces later fine) (refines : Refines fine ranges)
    (within : r.Within first) (begins : r.start ≤ later) (filled : r.start < r.stop) :
    Pieces later (r :: fine) := by
  obtain ⟨_, _, apart, _⟩ := cons_iff.mp pieces
  exact cons_iff.mpr
    ⟨begins, filled, fun s member => (refines.apart apart s member).within within, finePieces⟩

/-- Two parts of the first piece in front of the others. -/
theorem split
    (pieces : Pieces limit (first :: ranges)) (left right : Range) (beyond : limit ≤ later)
    (leftWithin : left.Within first) (rightWithin : right.Within first) (apart : left.Apart right)
    (begins : left.start ≤ later ∧ right.start ≤ later)
    (filled : left.start < left.stop ∧ right.start < right.stop) :
    Pieces later (left :: right :: ranges) ∧ Refines (left :: right :: ranges) (first :: ranges) := by
  obtain ⟨_, _, firstApart, restPieces⟩ := cons_iff.mp pieces
  have rightPieces : Pieces later (right :: ranges) :=
    pieces.cons_part (restPieces.weaken beyond) (Refines.refl ranges) rightWithin begins.2 filled.2
  refine ⟨cons_iff.mpr ⟨begins.1, filled.1, ?_, rightPieces⟩, ?_⟩
  · intro s member
    rcases List.mem_cons.mp member with rfl | member
    · exact apart
    · exact (firstApart s member).within leftWithin
  · exact ((Refines.refl ranges).cons rightWithin).add leftWithin

end Pieces

/-! ## One cut -/

section Cut

variable {limit x : Int} {v : Range} {ranges : List Range}

/-- Taking out an integer beyond the beginnings of the pieces takes out that integer, and nothing else. -/
theorem eraseFromRanges_pieces (pieces : Pieces limit ranges) (beyond : limit < x) :
    Pieces (x + 1) (eraseFromRanges x ranges) ∧ Refines (eraseFromRanges x ranges) ranges ∧
      ∀ y, Covers (eraseFromRanges x ranges) y ↔ Covers ranges y ∧ y ≠ x := by
  induction ranges with
  | nil => exact ⟨Pieces.nil _, Refines.refl _, by simp [eraseFromRanges]⟩
  | cons i rest inductionHypothesis =>
      obtain ⟨begins, filled, apart, restPieces⟩ := Pieces.cons_iff.mp pieces
      obtain ⟨erasedPieces, erasedRefines, erasedCovers⟩ := inductionHypothesis restPieces
      have elsewhere : x ∈ i → ¬ Covers rest x := Pieces.not_mem_of_apart apart
      unfold eraseFromRanges
      split
      · omega
      · split
        · omega
        · split
          · omega
          · split
            · -- The last integer of the first piece.
              have within : Range.Within ⟨i.start, i.stop - 1⟩ i := by
                simp only [Range.Within]
                omega
              refine ⟨pieces.cons_part (restPieces.weaken (by omega)) (Refines.refl rest) within
                (by simp only; omega) (by simp only; omega), (Refines.refl rest).cons within, fun y => ?_⟩
              simp only [covers_cons, Range.mem_iff] at elsewhere ⊢
              grind
            · split
              · -- An integer inside the first piece.
                obtain ⟨splitPieces, splitRefines⟩ := pieces.split ⟨i.start, x⟩ ⟨x + 1, i.stop⟩
                  (show limit ≤ x + 1 by omega) (by simp only [Range.Within]; omega)
                  (by simp only [Range.Within]; omega) (by simp only [Range.Apart]; omega)
                  (by simp only; omega) (by simp only; omega)
                refine ⟨splitPieces, splitRefines, fun y => ?_⟩
                simp only [covers_cons, Range.mem_iff] at elsewhere ⊢
                grind
              · refine ⟨pieces.cons_part erasedPieces erasedRefines (Range.Within.refl i) (by omega) filled,
                  erasedRefines.cons (Range.Within.refl i), fun y => ?_⟩
                simp only [covers_cons, erasedCovers y, Range.mem_iff]
                grind

/-- Cutting out a range that begins beyond the beginnings of the pieces takes out its integers, and nothing else. -/
theorem cutFromRanges_pieces
    (pieces : Pieces limit ranges) (beyond : limit < v.start) (filled : v.start < v.stop) :
    Pieces v.stop (cutFromRanges v [] ranges) ∧ Refines (cutFromRanges v [] ranges) ranges ∧
      ∀ y, Covers (cutFromRanges v [] ranges) y ↔ Covers ranges y ∧ y ∉ v := by
  induction ranges with
  | nil => exact ⟨Pieces.nil _, Refines.refl _, by simp [cutFromRanges]⟩
  | cons i rest inductionHypothesis =>
      obtain ⟨begins, iFilled, apart, restPieces⟩ := Pieces.cons_iff.mp pieces
      obtain ⟨cutPieces, cutRefines, cutCovers⟩ := inductionHypothesis restPieces
      have elsewhere : ∀ {y : Int}, y ∈ i → ¬ Covers rest y := Pieces.not_mem_of_apart apart
      unfold cutFromRanges
      simp only [List.nil_append, List.tail_cons, List.headD_nil]
      split
      · omega
      · split
        · -- The first piece is split, and the others have nothing in common with the range.
          obtain ⟨splitPieces, splitRefines⟩ := pieces.split ⟨v.stop, i.stop⟩ ⟨i.start, v.start⟩
            (show limit ≤ v.stop by omega) (by simp only [Range.Within]; omega)
            (by simp only [Range.Within]; omega) (by simp only [Range.Apart]; omega)
            (by simp only; omega) (by simp only; omega)
          refine ⟨splitPieces, splitRefines, fun y => ?_⟩
          have elsewhere := elsewhere (y := y)
          simp only [covers_cons, Range.mem_iff] at elsewhere ⊢
          grind
        · split
          · omega
          · split
            · -- The range covers the end of the first piece.
              have within : Range.Within ⟨i.start, v.start⟩ i := by
                simp only [Range.Within]
                omega
              refine ⟨pieces.cons_part cutPieces cutRefines within (by simp only; omega) (by simp only; omega),
                cutRefines.cons within, fun y => ?_⟩
              simp only [covers_cons, cutCovers y, Range.mem_iff]
              grind
            · split
              · omega
              · refine ⟨pieces.cons_part cutPieces cutRefines (Range.Within.refl i) (by omega) iFilled,
                  cutRefines.cons (Range.Within.refl i), fun y => ?_⟩
                simp only [covers_cons, cutCovers y, Range.mem_iff]
                grind

theorem removeFromRanges_pieces
    (pieces : Pieces limit ranges) (beyond : limit < v.start) (filled : v.start < v.stop) :
    Pieces v.stop (removeFromRanges ranges v) ∧
      ∀ y, Covers (removeFromRanges ranges v) y ↔ Covers ranges y ∧ y ∉ v := by
  unfold removeFromRanges
  split
  · rename_i single
    obtain ⟨erasedPieces, _, erasedCovers⟩ := eraseFromRanges_pieces pieces beyond
    refine ⟨erasedPieces.weaken (by omega), fun y => ?_⟩
    rw [erasedCovers y, Range.mem_iff]
    refine and_congr_right fun _ => ?_
    omega
  · obtain ⟨cutPieces, _, cutCovers⟩ := cutFromRanges_pieces pieces beyond filled
    exact ⟨cutPieces, cutCovers⟩

end Cut

/-! ## Taking out an ascending list -/

section Removal

variable {bound limit : Int} {ranges removed : List Range}

theorem foldl_removeFromRanges_pieces
    (pieces : Pieces limit ranges) (ascending : AscendingFrom limit removed)
    (filled : ∀ r ∈ removed, r.start < r.stop) :
    (∀ r ∈ removed.foldl removeFromRanges ranges, r.start < r.stop) ∧
      ∀ x, Covers (removed.foldl removeFromRanges ranges) x ↔ Covers ranges x ∧ ¬ Covers removed x := by
  induction removed generalizing ranges limit with
  | nil => exact ⟨pieces.filled, by simp⟩
  | cons v rest inductionHypothesis =>
      obtain ⟨begins, _, later⟩ := ascending
      simp only [List.mem_cons, forall_eq_or_imp] at filled
      obtain ⟨cutPieces, cutCovers⟩ := removeFromRanges_pieces pieces begins filled.1
      obtain ⟨restFilled, restCovers⟩ := inductionHypothesis cutPieces later filled.2
      refine ⟨restFilled, fun x => ?_⟩
      rw [List.foldl_cons, restCovers x, cutCovers x, covers_cons, not_or, and_assoc]

/-- A range with nothing in it stays what it is when ranges beyond it are taken out. -/
theorem foldl_removeFromRanges_of_void
    {void : Range} (empty : void.stop ≤ void.start) (beyond : void.start ≤ limit)
    (ascending : AscendingFrom limit removed) (filled : ∀ r ∈ removed, r.start < r.stop) :
    removed.foldl removeFromRanges [void] = [void] := by
  induction removed generalizing limit with
  | nil => rfl
  | cons v rest inductionHypothesis =>
      obtain ⟨begins, _, later⟩ := ascending
      simp only [List.mem_cons, forall_eq_or_imp] at filled
      have kept : removeFromRanges [void] v = [void] := by
        unfold removeFromRanges
        split
        · unfold eraseFromRanges
          repeat rw [if_neg (by omega)]
          rfl
        · unfold cutFromRanges
          repeat rw [if_neg (by omega)]
          rfl
      rw [List.foldl_cons, kept]
      exact inductionHypothesis (by omega) later filled.2

theorem foldl_removeFromRanges_nil (removed : List Range) : removed.foldl removeFromRanges [] = [] := by
  induction removed with
  | nil => rfl
  | cons v rest inductionHypothesis =>
      have kept : removeFromRanges [] v = [] := by
        unfold removeFromRanges
        split <;> rfl
      rw [List.foldl_cons, kept, inductionHypothesis]

end Removal

/-! ## The complement of an ascending list within an interval -/

/-- Some range covers the first integer of an interval together with a neighbour of it. -/
def Straddles (ranges : List Range) (first : Int) : Prop :=
  Covers ranges first ∧ (Covers ranges (first - 1) ∨ Covers ranges (first + 1))

/-- A range that ends by the first integer of the interval takes nothing out of it. -/
theorem removeFromRanges_of_stop_le
    {v r : Range} (below : v.stop ≤ r.start) : removeFromRanges [r] v = [r] := by
  unfold removeFromRanges
  split
  · unfold eraseFromRanges
    rw [if_pos (by omega)]
  · unfold cutFromRanges
    rw [if_pos (by omega)]
    rfl

theorem pieces_interval {first last limit : Int} (nonempty : first ≤ last) (beyond : first ≤ limit) :
    Pieces limit [⟨first, last + 1⟩] := by
  refine Pieces.cons_iff.mpr ⟨beyond, ?_, by simp, Pieces.nil limit⟩
  simp only
  omega

/-- Ranges of which the first one ends by the first integer of the interval straddle it no more than the others do. -/
theorem straddles_cons_iff_of_stop_le
    {first : Int} {v : Range} {rest : List Range} (later : AscendingFrom v.stop rest) (below : v.stop ≤ first) :
    Straddles (v :: rest) first ↔ Straddles rest first := by
  have atFirst := later.bound_lt_of_covers (x := first)
  have before := later.bound_lt_of_covers (x := first - 1)
  simp only [Straddles, covers_cons, Range.mem_iff]
  grind

/-- What is left of an interval when the ranges of an ascending list are taken out: the integers that no range covers,
except that nothing is left if some range straddles the first integer of the interval. Then there is at most one range
left, and otherwise each range that is left holds something. -/
theorem covers_foldl_removeFromRanges_interval
    {bound first last : Int} {removed : List Range}
    (nonempty : first ≤ last) (ascending : AscendingFrom bound removed)
    (filled : ∀ r ∈ removed, r.start < r.stop) :
    (Straddles removed first → (removed.foldl removeFromRanges [⟨first, last + 1⟩]).length ≤ 1) ∧
      (¬ Straddles removed first →
        ∀ r ∈ removed.foldl removeFromRanges [⟨first, last + 1⟩], r.start < r.stop) ∧
      ∀ x, Covers (removed.foldl removeFromRanges [⟨first, last + 1⟩]) x ↔
        (first ≤ x ∧ x ≤ last ∧ ¬ Covers removed x) ∧ ¬ Straddles removed first := by
  induction removed generalizing bound with
  | nil =>
      refine ⟨fun _ => by simp, fun _ => (pieces_interval nonempty (Int.le_refl first)).filled, fun x => ?_⟩
      simp only [List.foldl_nil, covers_cons, covers_nil, or_false, Range.mem_mk, Straddles, false_and,
        not_false_eq_true, and_true]
      omega
  | cons v rest inductionHypothesis =>
      obtain ⟨_, _, later⟩ := ascending
      have vFilled : v.start < v.stop := filled v List.mem_cons_self
      have restFilled : ∀ r ∈ rest, r.start < r.stop := fun r member =>
        filled r (List.mem_cons_of_mem v member)
      have restBeyond : ∀ {x : Int}, Covers rest x → v.stop < x := later.bound_lt_of_covers
      rw [List.foldl_cons]
      -- The cases follow the place of the first range: below the interval, inside it, or around its first integer.
      by_cases below : v.stop ≤ first
      · rw [removeFromRanges_of_stop_le below]
        rw [straddles_cons_iff_of_stop_le later below]
        obtain ⟨short, restHolds, restCovers⟩ := inductionHypothesis later restFilled
        refine ⟨short, restHolds, fun x => ?_⟩
        rw [restCovers x, covers_cons, Range.mem_iff]
        grind
      · by_cases inside : first < v.start
        · have notFirst : ¬ Straddles (v :: rest) first := by
            have atFirst := restBeyond (x := first)
            simp only [Straddles, covers_cons, Range.mem_iff]
            grind
          obtain ⟨cutPieces, cutCovers⟩ :=
            removeFromRanges_pieces (pieces_interval nonempty (Int.le_refl first)) inside vFilled
          obtain ⟨foldFilled, foldCovers⟩ := foldl_removeFromRanges_pieces cutPieces later restFilled
          refine ⟨fun straddles => absurd straddles notFirst, fun _ => foldFilled, fun x => ?_⟩
          rw [foldCovers x, cutCovers x]
          simp only [notFirst, not_false_eq_true, and_true, covers_cons, covers_nil, or_false, Range.mem_iff,
            not_or]
          grind
        · by_cases single : v.start = v.stop - 1
          · -- The range holds the first integer alone.
            have notFirst : ¬ Straddles (v :: rest) first := by
              have before := restBeyond (x := first - 1)
              have atNext := restBeyond (x := first + 1)
              simp only [Straddles, covers_cons, Range.mem_iff]
              grind
            have cut : removeFromRanges [⟨first, last + 1⟩] v = if first = last then [] else [⟨first + 1, last + 1⟩] := by
              unfold removeFromRanges eraseFromRanges
              rw [if_pos single, if_neg (by simp only; omega)]
              split
              · rw [if_pos (by simp only at *; omega)]
              · rw [if_pos (by simp only; omega), if_neg (by simp only at *; omega)]
            have cutPieces : Pieces v.stop (removeFromRanges [⟨first, last + 1⟩] v) := by
              rw [cut]
              split
              · exact Pieces.nil _
              · exact pieces_interval (by omega) (by omega)
            obtain ⟨foldFilled, foldCovers⟩ := foldl_removeFromRanges_pieces cutPieces later restFilled
            refine ⟨fun straddles => absurd straddles notFirst, fun _ => foldFilled, fun x => ?_⟩
            rw [foldCovers x, cut]
            simp only [notFirst, not_false_eq_true, and_true, covers_cons, Range.mem_iff, not_or]
            split
            · simp only [covers_nil]
              grind
            · simp only [covers_cons, covers_nil, or_false, Range.mem_iff]
              grind
          · have straddles : Straddles (v :: rest) first := by
              simp only [Straddles, covers_cons, Range.mem_iff]
              omega
            by_cases swallowed : last + 1 ≤ v.stop
            · have cut : removeFromRanges [⟨first, last + 1⟩] v = [] := by
                unfold removeFromRanges cutFromRanges
                rw [if_neg single, if_neg (by simp only; omega), if_neg (by simp only; omega),
                  if_pos (by simp only; omega)]
                rfl
              rw [cut, foldl_removeFromRanges_nil]
              simp [straddles]
            · -- The range is cut out at its own beginning, although it begins no later than the interval.
              have cut : removeFromRanges [⟨first, last + 1⟩] v = [⟨first, v.start⟩] := by
                unfold removeFromRanges cutFromRanges
                rw [if_neg single, if_neg (by simp only; omega), if_neg (by simp only; omega),
                  if_neg (by simp only; omega), if_pos (by simp only; omega)]
                rfl
              rw [cut, foldl_removeFromRanges_of_void (by simp only; omega) (by simp only; omega) later restFilled]
              refine ⟨fun _ => by simp, fun plain => absurd straddles plain, fun x => ?_⟩
              simp only [straddles, not_true_eq_false, and_false, iff_false, covers_cons, covers_nil, or_false,
                Range.mem_iff]
              omega

/-- The complement of a set whose ranges ascend and hold something. Its ranges hold something as well, unless the set
straddles the first integer of the interval. -/
theorem RangeSet.complement_of_ascending
    {bound first last : Int} {removed : List Range} (frozen : Bool)
    (nonempty : first ≤ last) (ascending : AscendingFrom bound removed)
    (filled : ∀ r ∈ removed, r.start < r.stop) :
    ∃ rest, RangeSet.complement ⟨some removed, frozen⟩ first last = .ok rest ∧
      (¬ Straddles removed first → ∀ r ∈ rest.ranges, r.start < r.stop) ∧
      ∀ x, x ∈ RangeSet.empty.union rest ↔
        (first ≤ x ∧ x ≤ last ∧ ¬ Covers removed x) ∧ ¬ Straddles removed first := by
  obtain ⟨short, holds, covered⟩ := covers_foldl_removeFromRanges_interval nonempty ascending filled
  refine ⟨⟨some (removed.foldl removeFromRanges [⟨first, last + 1⟩]), false⟩, ?_, holds, fun x => ?_⟩
  · exact congrArg Except.ok (RangeSet.foldl_eraseRange_filled removed [⟨first, last + 1⟩] false)
  · rw [← covered x]
    generalize removed.foldl removeFromRanges [⟨first, last + 1⟩] = left at short holds
    by_cases straddles : Straddles removed first
    · match left, short straddles with
      | [], _ => exact Iff.rfl
      | [r], _ => exact Iff.rfl
    · have upright : ∀ r ∈ left, r.start ≤ r.stop := fun r member => Int.le_of_lt (holds straddles r member)
      have members : x ∈ RangeSet.empty.union ⟨some left, false⟩ ↔ x ∈ RangeSet.empty ∨ Covers left x :=
        (RangeSet.ascending_empty.foldl_insertRange upright).2 x
      rw [members, or_iff_right (RangeSet.not_mem_empty x)]

/-! ## Where ranges begin -/

section Begins

variable {first last x : Int} {v : Range} {behind ranges removed : List Range}

/-- No range begins before `first`. -/
def BeginFrom (first : Int) (ranges : List Range) : Prop := ∀ r ∈ ranges, first ≤ r.start

theorem beginFrom_cons_iff : BeginFrom first (v :: ranges) ↔ first ≤ v.start ∧ BeginFrom first ranges :=
  List.forall_mem_cons

theorem BeginFrom.append (behindBegins : BeginFrom first behind) (begins : BeginFrom first ranges) :
    BeginFrom first (behind ++ ranges) :=
  List.forall_mem_append.mpr ⟨behindBegins, begins⟩

theorem eraseFromRanges_beginFrom (begins : BeginFrom first ranges) : BeginFrom first (eraseFromRanges x ranges) := by
  induction ranges with
  | nil => exact begins
  | cons i rest inductionHypothesis =>
      obtain ⟨here, later⟩ := beginFrom_cons_iff.mp begins
      have erased := inductionHypothesis later
      unfold eraseFromRanges
      simp only [apply_ite (BeginFrom first), beginFrom_cons_iff]
      grind

/-- What a cut leaves begins where a range began, or within one. -/
theorem cutFromRanges_beginFrom (behindBegins : BeginFrom first behind) (begins : BeginFrom first ranges) :
    BeginFrom first (cutFromRanges v behind ranges) := by
  have waiting : ∀ {behind : List Range} {i : Range}, BeginFrom first behind → first ≤ i.start →
      BeginFrom first (behind ++ [i]).tail := by
    intro behind i behindBegins here r member
    rcases List.mem_append.mp (List.mem_of_mem_tail member) with before | last
    · exact behindBegins r before
    · rw [List.mem_singleton.mp last]
      exact here
  fun_induction cutFromRanges v behind ranges with
  | case1 behind => exact behindBegins
  | case2 behind i rest before => exact behindBegins.append begins
  | case3 behind i rest reaches inside =>
      obtain ⟨here, later⟩ := beginFrom_cons_iff.mp begins
      have kept : BeginFrom first (⟨i.start, v.start⟩ :: ((behind ++ [i]).tail ++ rest)) :=
        beginFrom_cons_iff.mpr ⟨here, (waiting behindBegins here).append later⟩
      exact beginFrom_cons_iff.mpr ⟨by simp only; omega, kept⟩
  | case4 behind i reaches notInside covered =>
      exact waiting behindBegins (beginFrom_cons_iff.mp begins).1
  | case5 behind i reaches notInside covered next later inductionHypothesis =>
      obtain ⟨here, rest⟩ := beginFrom_cons_iff.mp begins
      obtain ⟨there, later⟩ := beginFrom_cons_iff.mp rest
      apply inductionHypothesis
      · exact (waiting behindBegins here).append (List.forall_mem_singleton.mpr there)
      · exact later
  | case6 behind i rest reaches notInside notCovered meets inductionHypothesis =>
      obtain ⟨here, later⟩ := beginFrom_cons_iff.mp begins
      exact beginFrom_cons_iff.mpr ⟨here, inductionHypothesis (waiting behindBegins here) later⟩
  | case7 behind i rest reaches notInside notCovered beyond ends inductionHypothesis =>
      obtain ⟨here, later⟩ := beginFrom_cons_iff.mp begins
      exact beginFrom_cons_iff.mpr ⟨by simp only; omega, inductionHypothesis (waiting behindBegins here) later⟩
  | case8 behind i rest reaches notInside notCovered beyond within inductionHypothesis =>
      obtain ⟨here, later⟩ := beginFrom_cons_iff.mp begins
      have head : first ≤ (behind.headD i).start := by
        cases behind with
        | nil => exact here
        | cons r _ => exact (beginFrom_cons_iff.mp behindBegins).1
      exact beginFrom_cons_iff.mpr ⟨head, inductionHypothesis (waiting behindBegins here) later⟩

theorem removeFromRanges_beginFrom (begins : BeginFrom first ranges) : BeginFrom first (removeFromRanges ranges v) := by
  unfold removeFromRanges
  by_cases single : v.start = v.stop - 1
  · rw [if_pos single]
    exact eraseFromRanges_beginFrom begins
  · rw [if_neg single]
    exact cutFromRanges_beginFrom (fun r absent => absurd absent List.not_mem_nil) begins

theorem foldl_removeFromRanges_beginFrom (begins : BeginFrom first ranges) :
    BeginFrom first (removed.foldl removeFromRanges ranges) := by
  induction removed generalizing ranges with
  | nil => exact begins
  | cons v rest inductionHypothesis => exact inductionHypothesis (removeFromRanges_beginFrom begins)

/-- The complement within an interval holds nothing from before the interval. -/
theorem RangeSet.le_of_mem_complement
    {s rest : RangeSet} (complement : s.complement first last = .ok rest) (member : x ∈ rest) : first ≤ x := by
  unfold RangeSet.complement at complement
  cases present : s.ranges? with
  | none =>
      rw [present] at complement
      contradiction
  | some removed =>
      rw [present] at complement
      obtain rfl := Except.ok.inj complement
      have begins : BeginFrom first [⟨first, last + 1⟩] := List.forall_mem_singleton.mpr (Int.le_refl first)
      obtain ⟨r, inRanges, inside⟩ := member
      have folded := RangeSet.foldl_eraseRange_filled removed [⟨first, last + 1⟩] false
      have same : (removed.foldl eraseRange (RangeSet.empty.insertRange ⟨first, last + 1⟩)).ranges =
          removed.foldl removeFromRanges [⟨first, last + 1⟩] := congrArg RangeSet.ranges folded
      rw [same] at inRanges
      exact Int.le_trans (foldl_removeFromRanges_beginFrom begins r inRanges) (Range.mem_iff.mp inside).1

end Begins

end GrammarNet
