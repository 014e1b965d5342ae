import Mathlib.Tactic.Tauto
import GrammarNet.RangeSet.Removal

/-!
# Ascending lists of ranges

A list of ranges ascends if none of its ranges is inverted and each ends before the next begins. Merging a range that
is not inverted into such a list adds its integers and nothing else, and the list still ascends. Hence the union of
sets that ascend holds what either of them holds.
-/

namespace GrammarNet

/-! ## Integers covered by a list of ranges -/

/-- Some range of the list holds `x`. -/
def Covers (ranges : List Range) (x : Int) : Prop := ∃ r ∈ ranges, x ∈ r

@[simp]
theorem covers_nil (x : Int) : ¬ Covers [] x := by
  simp [Covers]

@[simp]
theorem covers_cons (r : Range) (rest : List Range) (x : Int) :
    Covers (r :: rest) x ↔ x ∈ r ∨ Covers rest x := by
  simp [Covers]

theorem covers_append (ranges others : List Range) (x : Int) :
    Covers (ranges ++ others) x ↔ Covers ranges x ∨ Covers others x := by
  simp only [Covers, List.mem_append, or_and_right, exists_or]

namespace Range

theorem mem_mk {x start stop : Int} : x ∈ (⟨start, stop⟩ : Range) ↔ start ≤ x ∧ x < stop := Iff.rfl

@[simp]
theorem mem_single {x y : Int} : x ∈ Range.single y ↔ x = y := by
  rw [Range.single, mem_mk]
  omega

end Range

/-! ## Ascending lists -/

/-- The ranges begin beyond `bound`, none is inverted, and each ends before the next begins. -/
def AscendingFrom (bound : Int) : List Range → Prop
  | [] => True
  | r :: rest => bound < r.start ∧ r.start ≤ r.stop ∧ AscendingFrom r.stop rest

namespace AscendingFrom

variable {bound lower : Int} {ranges : List Range}

theorem weaken (ascending : AscendingFrom bound ranges) (below : lower ≤ bound) :
    AscendingFrom lower ranges := by
  cases ranges with
  | nil => trivial
  | cons r rest =>
      obtain ⟨begins, upright, later⟩ := ascending
      exact ⟨by omega, upright, later⟩

theorem raise (ascending : AscendingFrom lower ranges) (begins : ∀ r ∈ ranges, bound < r.start) :
    AscendingFrom bound ranges := by
  cases ranges with
  | nil => trivial
  | cons r rest => exact ⟨begins r List.mem_cons_self, ascending.2⟩

theorem bound_lt_start (ascending : AscendingFrom bound ranges) {r : Range} (member : r ∈ ranges) :
    bound < r.start := by
  induction ranges generalizing bound with
  | nil => simp at member
  | cons first rest inductionHypothesis =>
      obtain ⟨begins, upright, later⟩ := ascending
      rcases List.mem_cons.mp member with rfl | member
      · exact begins
      · have beyond := inductionHypothesis later member
        omega

theorem start_le_stop (ascending : AscendingFrom bound ranges) {r : Range} (member : r ∈ ranges) :
    r.start ≤ r.stop := by
  induction ranges generalizing bound with
  | nil => simp at member
  | cons first rest inductionHypothesis =>
      obtain ⟨_, upright, later⟩ := ascending
      rcases List.mem_cons.mp member with rfl | member
      · exact upright
      · exact inductionHypothesis later member

theorem bound_lt_of_covers (ascending : AscendingFrom bound ranges) {x : Int} (covered : Covers ranges x) :
    bound < x := by
  obtain ⟨r, member, inside⟩ := covered
  have begins := ascending.bound_lt_start member
  have reached := (Range.mem_iff.mp inside).1
  omega

end AscendingFrom

/-! ## Merging -/

section Merging

variable {bound limit x : Int} {first v : Range} {ranges : List Range}

/-- A range that begins no later than the others absorbs them without a change of what is covered. -/
theorem covers_absorb
    (ascending : AscendingFrom limit ranges) (leads : first.start ≤ limit) :
    Covers (absorb first ranges) x ↔ x ∈ first ∨ Covers ranges x := by
  induction ranges generalizing limit with
  | nil => simp [absorb]
  | cons second rest inductionHypothesis =>
      obtain ⟨begins, upright, later⟩ := ascending
      unfold absorb
      split
      · rename_i swallowed
        rw [inductionHypothesis later (by omega), covers_cons]
        have inside : x ∈ second → x ∈ first := by
          simp only [Range.mem_iff]
          omega
        tauto
      · split
        · simp only [covers_cons, Range.mem_mk, ← or_assoc]
          refine or_congr_left ?_
          simp only [Range.mem_iff]
          omega
        · simp only [covers_cons]

theorem ascendingFrom_absorb
    (ascending : AscendingFrom limit ranges) (leads : first.start ≤ limit)
    (begins : bound < first.start) (upright : first.start ≤ first.stop) :
    AscendingFrom bound (absorb first ranges) := by
  induction ranges generalizing limit with
  | nil => exact ⟨begins, upright, trivial⟩
  | cons second rest inductionHypothesis =>
      obtain ⟨secondBegins, secondUpright, later⟩ := ascending
      unfold absorb
      split
      · exact inductionHypothesis later (by omega)
      · split
        · exact ⟨begins, by simp only; omega, later⟩
        · exact ⟨begins, upright, by omega, secondUpright, later⟩

/-- Merging a range adds its integers, and no others. -/
theorem covers_insertRange (ascending : AscendingFrom bound ranges) (upright : v.start ≤ v.stop) :
    Covers (insertRange v ranges) x ↔ x ∈ v ∨ Covers ranges x := by
  induction ranges generalizing bound with
  | nil => simp [insertRange]
  | cons i rest inductionHypothesis =>
      obtain ⟨_, iUpright, later⟩ := ascending
      unfold insertRange
      split
      · simp only [covers_cons]
      · split
        · simp only [covers_cons, ← or_assoc]
          refine or_congr_left ?_
          simp only [Range.mem_iff]
          omega
        · split
          · rw [covers_absorb later (by simp only; omega), covers_cons, ← or_assoc]
            refine or_congr_left ?_
            simp only [Range.mem_iff]
            omega
          · simp only [covers_cons, inductionHypothesis later]
            tauto

theorem ascendingFrom_insertRange
    (ascending : AscendingFrom bound ranges) (begins : bound < v.start) (upright : v.start ≤ v.stop) :
    AscendingFrom bound (insertRange v ranges) := by
  induction ranges generalizing bound with
  | nil => exact ⟨begins, upright, trivial⟩
  | cons i rest inductionHypothesis =>
      obtain ⟨iBegins, iUpright, later⟩ := ascending
      unfold insertRange
      split
      · exact ⟨begins, upright, by omega, iUpright, later⟩
      · split
        · exact ⟨begins, by simp only; omega, later⟩
        · split
          · exact ascendingFrom_absorb later (by simp only; omega) (by simp only; omega) (by simp only; omega)
          · exact ⟨iBegins, iUpright, inductionHypothesis later (by omega)⟩

/-- Each range that merging leaves begins where a range began before, and ends no earlier than that one. -/
theorem exists_of_mem_insertRange
    (ascending : AscendingFrom bound ranges) {r : Range} (member : r ∈ insertRange v ranges) :
    ∃ old ∈ v :: ranges, old.start = r.start ∧ old.stop ≤ r.stop := by
  have absorbed : ∀ (rest : List Range) (head : Range), r ∈ absorb head rest →
      ∃ old ∈ head :: rest, old.start = r.start ∧ old.stop ≤ r.stop := by
    intro rest
    induction rest with
    | nil =>
        intro head found
        exact ⟨r, found, rfl, Int.le_refl _⟩
    | cons second rest inductionHypothesis =>
        intro head found
        unfold absorb at found
        split at found
        · obtain ⟨old, oldMember, facts⟩ := inductionHypothesis head found
          refine ⟨old, ?_, facts⟩
          simp only [List.mem_cons] at oldMember ⊢
          tauto
        · split at found
          · rcases List.mem_cons.mp found with rfl | found
            · exact ⟨head, by simp, rfl, by simp only; omega⟩
            · exact ⟨r, by simp [found], rfl, Int.le_refl _⟩
          · exact ⟨r, found, rfl, Int.le_refl _⟩
  induction ranges generalizing bound with
  | nil => exact ⟨r, member, rfl, Int.le_refl _⟩
  | cons i rest inductionHypothesis =>
      obtain ⟨_, iUpright, later⟩ := ascending
      unfold insertRange at member
      split at member
      · exact ⟨r, member, rfl, Int.le_refl _⟩
      · split at member
        · rcases List.mem_cons.mp member with rfl | member
          · exact ⟨v, by simp, rfl, by simp only; omega⟩
          · exact ⟨r, by simp [member], rfl, Int.le_refl _⟩
        · split at member
          · obtain ⟨old, oldMember, start, stop⟩ := absorbed rest _ member
            rcases List.mem_cons.mp oldMember with rfl | oldMember
            · -- The range that absorbed the rest begins with `i` or with `v`, and reaches beyond both.
              simp only at start stop
              by_cases earlier : i.start ≤ v.start
              · exact ⟨i, by simp, by omega, by omega⟩
              · exact ⟨v, by simp, by omega, by omega⟩
            · exact ⟨old, by simp [oldMember], start, stop⟩
          · rcases List.mem_cons.mp member with rfl | member
            · exact ⟨r, by simp, rfl, Int.le_refl _⟩
            · obtain ⟨old, oldMember, facts⟩ := inductionHypothesis later member
              refine ⟨old, ?_, facts⟩
              simp only [List.mem_cons] at oldMember ⊢
              tauto

end Merging

/-! ## Taking an integer out -/

section Erasing

variable {bound y : Int} {ranges : List Range}

/-- What is left of a range once an integer is taken out of it. -/
structure PartsWithout (y : Int) (i : Range) (parts : List Range) : Prop where
  begins : ∀ r ∈ parts, r.start ≠ y
  covers : ∀ x, Covers parts x ↔ x ∈ i ∧ x ≠ y
  ascends : ∀ rest, AscendingFrom i.stop rest → AscendingFrom (i.start - 1) (parts ++ rest)

/-- An integer is taken out of the first range that ends beyond it. -/
theorem eraseFromRanges_cons_cases {i : Range} (upright : i.start ≤ i.stop) (filled : i.start = y → y < i.stop) :
    (y < i.stop ∧ ∃ parts, PartsWithout y i parts ∧ ∀ rest, eraseFromRanges y (i :: rest) = parts ++ rest) ∨
      (i.stop ≤ y ∧ ∀ rest, eraseFromRanges y (i :: rest) = i :: eraseFromRanges y rest) := by
  by_cases before : y < i.start
  · refine Or.inl ⟨by omega, [i], ⟨?_, fun x => ?_, fun rest later => ?_⟩, fun rest => if_pos before⟩
    · simp only [List.mem_singleton, forall_eq]
      omega
    · simp only [covers_cons, covers_nil, or_false, Range.mem_iff]
      omega
    · exact ⟨by omega, upright, later⟩
  by_cases beyond : i.stop ≤ y
  · refine Or.inr ⟨beyond, fun rest => ?_⟩
    rw [eraseFromRanges, if_neg before, if_neg (by omega), if_neg (by omega), if_neg (by omega), if_neg (by omega)]
  refine Or.inl ⟨by omega, ?_⟩
  by_cases first : y = i.start
  · by_cases last : y = i.stop - 1
    · refine ⟨[], ⟨by simp, fun x => ?_, fun rest later => ?_⟩, fun rest => ?_⟩
      · simp only [covers_nil, false_iff, Range.mem_iff]
        omega
      · exact later.weaken (by omega)
      · rw [eraseFromRanges, if_neg before, if_pos ⟨first, last⟩, List.nil_append]
    · refine ⟨[⟨i.start + 1, i.stop⟩], ⟨?_, fun x => ?_, fun rest later => ?_⟩, fun rest => ?_⟩
      · simp only [List.mem_singleton, forall_eq]
        omega
      · simp only [covers_cons, covers_nil, or_false, Range.mem_iff]
        omega
      · exact ⟨by simp only; omega, by simp only; omega, later⟩
      · rw [eraseFromRanges, if_neg before, if_neg (by omega), if_pos first, List.singleton_append]
  · by_cases last : y = i.stop - 1
    · refine ⟨[⟨i.start, i.stop - 1⟩], ⟨?_, fun x => ?_, fun rest later => ?_⟩, fun rest => ?_⟩
      · simp only [List.mem_singleton, forall_eq]
        omega
      · simp only [covers_cons, covers_nil, or_false, Range.mem_iff]
        omega
      · exact ⟨by simp only; omega, by simp only; omega, later.weaken (by simp only; omega)⟩
      · rw [eraseFromRanges, if_neg before, if_neg (by omega), if_neg first, if_pos last, List.singleton_append]
    · refine ⟨[⟨i.start, y⟩, ⟨y + 1, i.stop⟩], ⟨?_, fun x => ?_, fun rest later => ?_⟩, fun rest => ?_⟩
      · simp only [List.mem_cons, List.not_mem_nil, or_false, forall_eq_or_imp, forall_eq]
        omega
      · simp only [covers_cons, covers_nil, or_false, Range.mem_iff]
        omega
      · exact ⟨by simp only; omega, by simp only; omega, by simp only; omega, by simp only; omega, later⟩
      · rw [eraseFromRanges, if_neg before, if_neg (by omega), if_neg first, if_neg last, if_pos (by omega)]
        rfl

/-- If no empty range begins with an integer, taking it out removes it and no others. -/
theorem eraseFromRanges_of_ascending
    (ascending : AscendingFrom bound ranges) (filled : ∀ r ∈ ranges, r.start = y → y < r.stop) :
    AscendingFrom bound (eraseFromRanges y ranges) ∧ (∀ r ∈ eraseFromRanges y ranges, r.start ≠ y) ∧
      ∀ x, Covers (eraseFromRanges y ranges) x ↔ Covers ranges x ∧ x ≠ y := by
  induction ranges generalizing bound with
  | nil => simp [eraseFromRanges, AscendingFrom]
  | cons i rest inductionHypothesis =>
      obtain ⟨begins, upright, later⟩ := ascending
      have restFilled : ∀ r ∈ rest, r.start = y → y < r.stop := fun r member =>
        filled r (List.mem_cons_of_mem i member)
      rcases eraseFromRanges_cons_cases upright (filled i List.mem_cons_self) with
        ⟨less, parts, without, erased⟩ | ⟨beyond, erased⟩
      · rw [erased rest]
        have others : ∀ x, Covers rest x → x ≠ y := by
          intro x covered
          have above := later.bound_lt_of_covers covered
          omega
        refine ⟨(without.ascends rest later).weaken (by omega), fun r member => ?_, fun x => ?_⟩
        · rcases List.mem_append.mp member with part | inRest
          · exact without.begins r part
          · have above := later.bound_lt_start inRest
            omega
        · rw [covers_append, covers_cons, without.covers x, or_and_right]
          exact or_congr_right (and_iff_left_of_imp (others x)).symm
      · rw [erased rest]
        obtain ⟨ascends, starts, covers⟩ := inductionHypothesis later restFilled
        refine ⟨⟨begins, upright, ascends⟩, List.forall_mem_cons.mpr ⟨?_, starts⟩, fun x => ?_⟩
        · intro same
          exact absurd (filled i List.mem_cons_self same) (by omega)
        · rw [covers_cons, covers_cons, covers x, or_and_right]
          refine or_congr_left ?_
          simp only [Range.mem_iff]
          omega

end Erasing

/-! ## Sets that ascend -/

namespace RangeSet

/-- The ranges of the set ascend. -/
def Ascending (s : RangeSet) : Prop := ∃ bound, AscendingFrom bound s.ranges

theorem mem_iff_covers {s : RangeSet} {x : Int} : x ∈ s ↔ Covers s.ranges x := Iff.rfl

@[simp]
theorem ranges_insertRange (s : RangeSet) (v : Range) :
    (s.insertRange v).ranges = GrammarNet.insertRange v s.ranges := rfl

@[simp]
theorem ranges_empty : RangeSet.empty.ranges = [] := rfl

@[simp]
theorem ranges_erase (s : RangeSet) (x : Int) : (s.erase x).ranges = eraseFromRanges x s.ranges := by
  unfold erase ranges
  cases s.ranges? with
  | none => rfl
  | some ranges => rfl

@[simp]
theorem ranges_freeze (s : RangeSet) : s.freeze.ranges = s.ranges := by
  unfold freeze ranges
  cases given : s.ranges? with
  | none => simp
  | some ranges =>
      cases ranges with
      | nil => simp
      | cons r rest => simp

/-- A frozen copy was never filled exactly if nothing is in it. -/
theorem ranges?_freeze_eq_none_iff {s : RangeSet} : s.freeze.ranges? = none ↔ s.freeze.ranges = [] := by
  rw [ranges_freeze]
  unfold freeze ranges
  cases s.ranges? <;> simp

@[simp]
theorem mem_freeze {s : RangeSet} {x : Int} : x ∈ s.freeze ↔ x ∈ s := by
  rw [mem_iff_covers, mem_iff_covers, ranges_freeze]

theorem mem_some_single {x y : Int} {frozen : Bool} : x ∈ (⟨some [.single y], frozen⟩ : RangeSet) ↔ x = y := by
  simp [mem_iff_covers, ranges, Range.mem_single]

theorem not_mem_empty (x : Int) : x ∉ RangeSet.empty := by
  simp [mem_iff_covers]

theorem ascending_empty : RangeSet.empty.Ascending := ⟨0, trivial⟩

theorem Ascending.insertRange {s : RangeSet} (ascending : s.Ascending) {v : Range} (upright : v.start ≤ v.stop) :
    (s.insertRange v).Ascending := by
  obtain ⟨bound, ascending⟩ := ascending
  refine ⟨min bound (v.start - 1), ?_⟩
  exact ascendingFrom_insertRange (ascending.weaken (by omega)) (by omega) upright

theorem Ascending.mem_insertRange
    {s : RangeSet} (ascending : s.Ascending) {v : Range} (upright : v.start ≤ v.stop) {x : Int} :
    x ∈ s.insertRange v ↔ x ∈ v ∨ x ∈ s := by
  obtain ⟨bound, ascending⟩ := ascending
  exact covers_insertRange ascending upright

theorem Ascending.insert {s : RangeSet} (ascending : s.Ascending) (x : Int) : (s.insert x).Ascending :=
  ascending.insertRange (by simp only [Range.single]; omega)

theorem Ascending.mem_insert {s : RangeSet} (ascending : s.Ascending) {x y : Int} :
    y ∈ s.insert x ↔ y = x ∨ y ∈ s := by
  rw [RangeSet.insert, ascending.mem_insertRange (by simp only [Range.single]; omega), Range.mem_single]

/-- Adding ranges that are not inverted one after the other adds their integers, and no others. -/
theorem Ascending.foldl_insertRange
    {s : RangeSet} (ascending : s.Ascending) {added : List Range} (upright : ∀ r ∈ added, r.start ≤ r.stop) :
    (added.foldl RangeSet.insertRange s).Ascending ∧
      ∀ x, x ∈ added.foldl RangeSet.insertRange s ↔ x ∈ s ∨ Covers added x := by
  induction added generalizing s with
  | nil => simp [ascending]
  | cons v rest inductionHypothesis =>
      have vUpright : v.start ≤ v.stop := upright v List.mem_cons_self
      have restUpright : ∀ r ∈ rest, r.start ≤ r.stop := fun r member =>
        upright r (List.mem_cons_of_mem v member)
      obtain ⟨stays, members⟩ := inductionHypothesis (ascending.insertRange vUpright) restUpright
      refine ⟨stays, fun x => ?_⟩
      rw [List.foldl_cons, members x, ascending.mem_insertRange vUpright, covers_cons]
      tauto

theorem Ascending.union
    {s other : RangeSet} (ascending : s.Ascending) (upright : ∀ r ∈ other.ranges, r.start ≤ r.stop) :
    (s.union other).Ascending :=
  (ascending.foldl_insertRange upright).1

/-- The union holds what either set holds, if the set that is added to ascends and no range that is added is
inverted. -/
theorem Ascending.mem_union
    {s other : RangeSet} (ascending : s.Ascending) (upright : ∀ r ∈ other.ranges, r.start ≤ r.stop) {x : Int} :
    x ∈ s.union other ↔ x ∈ s ∨ x ∈ other :=
  (ascending.foldl_insertRange upright).2 x

end RangeSet

end GrammarNet
