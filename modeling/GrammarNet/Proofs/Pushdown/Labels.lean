import GrammarNet.Proofs.Pushdown.WellFormed
import GrammarNet.Proofs.RangeSet.Ascending

/-!
# Labels

A search puts the ranges of labels together with the marks of ends. A property of ranges that these have, and that a
range keeps when it grows at its end, is one of all ranges that a search ever finds.
-/

namespace GrammarNet

/-! ## Properties of ranges -/

/-- A property of ranges that keeps inverted ones out, admits the marks of ends and every interval of user symbols, and
is not lost when a range grows at its end. -/
structure Admits (P : Range → Prop) : Prop where
  upright : ∀ {r : Range}, P r → r.start ≤ r.stop
  mark : ∀ {x : Symbol}, Symbol.epsilon ≤ x → P (Range.single x)
  interval : ∀ {greatest : Symbol}, Symbol.firstUser ≤ greatest → P ⟨Symbol.firstUser, greatest + 1⟩
  grows : ∀ {r s : Range}, P r → r.start = s.start → r.stop ≤ s.stop → P s

theorem admits_upright : Admits fun r => r.start ≤ r.stop where
  upright := id
  mark := fun _ => by simp only [Range.single]; omega
  interval := fun large => Int.le_trans large (Int.le_of_lt (Int.lt_succ _))
  grows := fun upright start stop => by omega

theorem admits_filled : Admits fun r => r.start < r.stop where
  upright := Int.le_of_lt
  mark := fun _ => by simp only [Range.single]; omega
  interval := fun large => Int.lt_add_one_of_le large
  grows := fun filled start stop => by omega

/-- The range holds symbols of the input or the mark of its end, and is not inverted. -/
def Range.OfInput (r : Range) : Prop := Symbol.endOfInput ≤ r.start ∧ r.start ≤ r.stop

instance (r : Range) : Decidable r.OfInput :=
  inferInstanceAs (Decidable (Symbol.endOfInput ≤ r.start ∧ r.start ≤ r.stop))

theorem Range.OfInput.ne_epsilon {r : Range} (ofInput : r.OfInput) {x : Symbol} (inside : x ∈ r) :
    x ≠ Symbol.epsilon := by
  obtain ⟨least, _⟩ := ofInput
  have reached := (Range.mem_iff.mp inside).1
  rintro rfl
  exact absurd (Int.le_trans least reached) (by decide)

/-- The set ascends, and its ranges are as `P` says. -/
structure RangeSet.Kept (P : Range → Prop) (s : RangeSet) : Prop where
  ascending : s.Ascending
  ranges : ∀ r ∈ s.ranges, P r

namespace RangeSet.Kept

variable {P : Range → Prop} {s other : RangeSet} {v : Range}

theorem empty : RangeSet.empty.Kept P := ⟨ascending_empty, by simp⟩

theorem mono {Q : Range → Prop} (kept : s.Kept P) (implies : ∀ {r : Range}, P r → Q r) : s.Kept Q :=
  ⟨kept.ascending, fun r member => implies (kept.ranges r member)⟩

theorem ne_epsilon {x : Symbol} (kept : s.Kept Range.OfInput) (member : x ∈ s) : x ≠ Symbol.epsilon := by
  obtain ⟨r, inRanges, inside⟩ := member
  exact (kept.ranges r inRanges).ne_epsilon inside

theorem freeze (kept : s.Kept P) : s.freeze.Kept P := by
  obtain ⟨⟨bound, ascending⟩, ranges⟩ := kept
  exact ⟨⟨bound, by rwa [ranges_freeze]⟩, by rwa [ranges_freeze]⟩

theorem insertRange (admits : Admits P) (kept : s.Kept P) (added : P v) : (s.insertRange v).Kept P where
  ascending := kept.ascending.insertRange (admits.upright added)
  ranges := by
    intro r member
    obtain ⟨bound, ascending⟩ := kept.ascending
    obtain ⟨old, oldMember, start, stop⟩ := exists_of_mem_insertRange ascending member
    rcases List.mem_cons.mp oldMember with rfl | oldMember
    · exact admits.grows added start stop
    · exact admits.grows (kept.ranges old oldMember) start stop

theorem union (admits : Admits P) (kept : s.Kept P) (added : ∀ r ∈ other.ranges, P r) : (s.union other).Kept P := by
  unfold RangeSet.union
  generalize other.ranges = ranges at added
  induction ranges generalizing s with
  | nil => exact kept
  | cons v rest inductionHypothesis =>
      exact inductionHypothesis (kept.insertRange admits (added v List.mem_cons_self)) fun r member =>
        added r (List.mem_cons_of_mem v member)

end RangeSet.Kept

/-! ## Labels of a network -/

/-- The outcome is a set, and its ranges are as `P` says. -/
def Yielded (P : Range → Prop) : Except Fault RangeSet → Prop
  | .ok s => ∀ r ∈ s.ranges, P r
  | .error _ => False

instance (P : Range → Prop) [DecidablePred P] : (outcome : Except Fault RangeSet) → Decidable (Yielded P outcome)
  | .ok s => inferInstanceAs (Decidable (∀ r ∈ s.ranges, P r))
  | .error _ => inferInstanceAs (Decidable False)

/-- The ranges of the label of a transition of this kind, and those of the complement of a negated label, are as `P`
says. -/
def TransitionKind.Labelled (P : Range → Prop) (greatest : Symbol) : TransitionKind → Prop
  | .atom _ label | .range _ _ label | .set label => ∀ r ∈ label.set.ranges, P r
  | .notSet label =>
      (∀ r ∈ label.set.ranges, P r) ∧
        (Symbol.firstUser ≤ greatest → Yielded P (label.set.complement Symbol.firstUser greatest))
  | _ => True

instance (P : Range → Prop) [DecidablePred P] (greatest : Symbol) :
    (kind : TransitionKind) → Decidable (kind.Labelled P greatest)
  | .atom _ label | .range _ _ label | .set label => inferInstanceAs (Decidable (∀ r ∈ label.set.ranges, P r))
  | .notSet label =>
      inferInstanceAs (Decidable ((∀ r ∈ label.set.ranges, P r) ∧
        (Symbol.firstUser ≤ greatest → Yielded P (label.set.complement Symbol.firstUser greatest))))
  | .plain | .abstractPredicate | .epsilon _ | .wildcard | .rule .. | .predicate .. | .precedence _ | .action .. =>
      inferInstanceAs (Decidable True)

/-- The labels of a network are as `P` says. -/
def Network.Labelled (P : Range → Prop) (net : Network) : Prop :=
  ∀ id ∈ net.listed, ∀ t ∈ (net.state id).transitions, t.kind.Labelled P net.maxSymbol

instance (P : Range → Prop) [DecidablePred P] (net : Network) : Decidable (net.Labelled P) :=
  inferInstanceAs (Decidable (∀ id ∈ net.listed, ∀ t ∈ (net.state id).transitions, t.kind.Labelled P net.maxSymbol))

instance TransitionKind.decidableYields (greatest x : Symbol) : (kind : TransitionKind) →
    Decidable (kind.Yields greatest x)
  | .atom _ label | .range _ _ label | .set label => inferInstanceAs (Decidable (x ∈ label.set))
  | .notSet label =>
      match complement : label.set.complement Symbol.firstUser greatest with
      | .ok rest => decidable_of_iff (Symbol.firstUser ≤ greatest ∧ x ∈ rest) (by simp [Yields, complement])
      | .error _ => .isFalse (by simp [Yields, complement])
  | .wildcard => inferInstanceAs (Decidable (Symbol.firstUser ≤ x ∧ x ≤ greatest))
  | .plain | .abstractPredicate | .epsilon _ | .rule .. | .predicate .. | .precedence _ | .action .. =>
      inferInstanceAs (Decidable False)

section Labelled

variable {P Q : Range → Prop} {kind : TransitionKind} {greatest : Symbol}

theorem TransitionKind.Labelled.mono (labelled : kind.Labelled P greatest) (implies : ∀ {r : Range}, P r → Q r) :
    kind.Labelled Q greatest := by
  cases kind with
  | atom | range | set => exact fun r member => implies (labelled r member)
  | notSet label =>
      refine ⟨fun r member => implies (labelled.1 r member), fun large => ?_⟩
      have rest := labelled.2 large
      cases complement : label.set.complement Symbol.firstUser greatest with
      | error fault =>
          rw [complement] at rest
          exact rest.elim
      | ok offered =>
          rw [complement] at rest
          exact fun r member => implies (rest r member)
  | plain | abstractPredicate | epsilon | wildcard | rule | predicate | precedence | action => trivial

/-- A symbol that a transition yields is one of the user, or in a range that is as `P` says. -/
theorem TransitionKind.Labelled.of_yields
    {x : Symbol} (labelled : kind.Labelled P greatest) (yields : kind.Yields greatest x) :
    Symbol.firstUser ≤ x ∨ ∃ r, P r ∧ x ∈ r := by
  cases kind with
  | atom | range | set =>
      obtain ⟨r, member, inside⟩ := yields
      exact Or.inr ⟨r, labelled r member, inside⟩
  | notSet label =>
      obtain ⟨large, rest, complement, r, member, inside⟩ := yields
      have kept := labelled.2 large
      rw [complement] at kept
      exact Or.inr ⟨r, kept r member, inside⟩
  | wildcard => exact Or.inl yields.1
  | plain | abstractPredicate | epsilon | rule | predicate | precedence | action => exact yields.elim

/-- What a transition adds to a lookahead are the symbols that it yields. -/
theorem TransitionKind.offer_of_labelled (admits : Admits P) (labelled : kind.Labelled P greatest) :
    ∃ offer, kind.offer greatest = .ok offer ∧ (∀ r ∈ offer.ranges, P r) ∧
      ∀ x, x ∈ offer ↔ kind.Yields greatest x := by
  have nothing : (∀ r ∈ RangeSet.empty.ranges, P r) ∧ ∀ x : Symbol, x ∈ RangeSet.empty ↔ False :=
    ⟨by simp, fun x => iff_of_false (RangeSet.not_mem_empty x) id⟩
  cases kind with
  | atom _ label => exact ⟨label.set, rfl, labelled, fun _ => Iff.rfl⟩
  | range _ _ label => exact ⟨label.set, rfl, labelled, fun _ => Iff.rfl⟩
  | set label => exact ⟨label.set, rfl, labelled, fun _ => Iff.rfl⟩
  | notSet label =>
      unfold offer Yields
      by_cases small : greatest < Symbol.firstUser
      · refine ⟨.empty, by simp only [small, if_true], nothing.1, fun x => ?_⟩
        rw [nothing.2 x]
        exact iff_of_false id fun yields => Int.not_le.mpr small yields.1
      · have large : Symbol.firstUser ≤ greatest := Int.not_lt.mp small
        have kept := labelled.2 large
        simp only [small, if_false, large, true_and]
        cases complement : label.set.complement Symbol.firstUser greatest with
        | error fault =>
            rw [complement] at kept
            exact kept.elim
        | ok offered =>
            rw [complement] at kept
            refine ⟨offered, rfl, kept, fun x => ?_⟩
            simp only [Except.ok.injEq, exists_eq_left']
  | wildcard =>
      unfold offer Yields
      by_cases small : greatest < Symbol.firstUser
      · refine ⟨.empty, by simp only [small, if_true], nothing.1, fun x => ?_⟩
        rw [nothing.2 x]
        exact iff_of_false id fun yields =>
          Int.not_le.mpr small (Int.le_trans yields.1 yields.2)
      · refine ⟨RangeSet.empty.insertRange ⟨Symbol.firstUser, greatest + 1⟩, by simp only [small, if_false], ?_,
          fun x => ?_⟩
        · intro r member
          rw [List.mem_singleton.mp member]
          exact admits.interval (Int.not_lt.mp small)
        · rw [RangeSet.mem_iff_covers]
          simp only [RangeSet.ranges_insertRange, RangeSet.ranges_empty, insertRange, covers_cons, covers_nil,
            or_false, Range.mem_mk, Int.lt_add_one_iff]
  | plain => exact ⟨.empty, rfl, nothing⟩
  | abstractPredicate => exact ⟨.empty, rfl, nothing⟩
  | epsilon => exact ⟨.empty, rfl, nothing⟩
  | rule => exact ⟨.empty, rfl, nothing⟩
  | predicate => exact ⟨.empty, rfl, nothing⟩
  | precedence => exact ⟨.empty, rfl, nothing⟩
  | action => exact ⟨.empty, rfl, nothing⟩

/-- What a transition did add is as its label says. -/
theorem TransitionKind.Labelled.of_offer
    {offer : RangeSet} (admits : Admits P) (labelled : kind.Labelled P greatest)
    (offered : kind.offer greatest = .ok offer) :
    (∀ r ∈ offer.ranges, P r) ∧ ∀ x, x ∈ offer ↔ kind.Yields greatest x := by
  obtain ⟨given, same, facts⟩ := TransitionKind.offer_of_labelled admits labelled
  have unique : offer = given := Except.ok.inj (offered.symm.trans same)
  rw [unique]
  exact facts

end Labelled

end GrammarNet
