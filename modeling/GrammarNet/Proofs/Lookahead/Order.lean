import GrammarNet.Proofs.Construction.Labelling
import GrammarNet.Proofs.Lookahead.Expected
import GrammarNet.Proofs.Lookahead.History
import GrammarNet.Proofs.Search.Reordered

/-!
# Lookahead and the order of transitions

The order in which transitions leave a state decides which configurations a search visits first, and in which order it
adds ranges to what it has found. On a regular network, neither shows in an answer: the symbols found are those that can
come first, and there is one canonical list of ranges for them.
-/

namespace GrammarNet

namespace Network

section Lookahead

variable {net other : Network} {mode : SearchMode} {start : StateId} {stack : CallStack} {found : RangeSet}

theorem added_of_lookahead {state : Option StateId} (ok : net.lookahead mode state stack = .ok found) : found.Added := by
  obtain ⟨steps, ends, _⟩ := Search.ends_lookahead net mode state stack
  have outcomes := ends.invariant (P := fun search => search.found.Added) RangeSet.added_empty
    fun added _ performed => by
      cases performed with
      | reported x => exact added.insertRange _
      | consumed => exact added.union _
      | passed | expanded => exact added
  rcases outcomes with ⟨last, added, _, outcome⟩ | ⟨_, _, _, _, _, _, _, outcome⟩
  · rw [ok] at outcome
    rw [Except.ok.inj outcome]
    exact added
  · rw [ok] at outcome
    contradiction

theorem Reordered.regular {P : Range → Prop} (same : net.Reordered other) (regular : net.Regular P) :
    other.Regular P where
  shape := same.wellFormed regular.shape
  labelled := same.samePaths.labelled regular.labelled
  guarded := same.guarded regular.guarded
  single := same.singleEntry regular.single

theorem Reordered.invoking (same : net.Reordered other) (invoking : net.Invoking stack) : other.Invoking stack := by
  intro link member nonneg
  obtain ⟨invoker, found, t, inState, invokes⟩ := invoking link member nonneg
  exact ⟨invoker, (same.samePaths.slot? link).trans found, t, (same.samePaths.transitions invoker t).mpr inState, invokes⟩

/-- Searches in networks that differ in the order of transitions find the same set. -/
theorem Reordered.exists_lookahead
    (same : net.Reordered other) (regular : net.Regular fun r => r.start < r.stop) (mode : SearchMode)
    (listed : start ∈ net.listed) (invoking : net.Invoking stack) :
    ∃ found, net.lookahead mode (some start) stack = .ok found ∧ other.lookahead mode (some start) stack = .ok found ∧
      (found.Kept fun r => r.start < r.stop) ∧ found.Added := by
  have alsoListed : start ∈ other.listed := same.samePaths.listed ▸ listed
  obtain ⟨here, ok, kept, first⟩ := regular.exists_lookahead admits_filled mode listed invoking
  obtain ⟨there, alsoOk, alsoKept, alsoFirst⟩ :=
    (same.regular regular).exists_lookahead admits_filled mode alsoListed (same.invoking invoking)
  have added := added_of_lookahead ok
  have members : ∀ x, Covers here.ranges x ↔ Covers there.ranges x := by
    intro x
    apply (first x).trans
    apply Iff.trans _ (alsoFirst x).symm
    exact ⟨same.samePaths.first, same.samePaths.symm.first⟩
  have ranges := kept.canonical.eq_of_covers alsoKept.canonical members
  have equal : here = there := added.eq_of_ranges (added_of_lookahead alsoOk) ranges
  exact ⟨here, ok, equal ▸ alsoOk, kept, added⟩

end Lookahead

end Network

namespace Lookahead

open NetM

/-- The outcome is a set with a canonical list of ranges. Otherwise, what `lost` says is the case. -/
def Orderly (lost : Prop) : Except Fault RangeSet → Prop
  | .ok found => Canonical found.ranges
  | .error _ => lost

theorem Orderly.mono {lost missing : Prop} {outcome : Except Fault RangeSet} (orderly : Orderly lost outcome)
    (implies : lost → missing) : Orderly missing outcome := by
  cases outcome with
  | ok found => exact orderly
  | error fault => exact implies orderly

section Order

variable {net other : Network} {work otherWork : Workspace} {id : StateId} {found : RangeSet}

/-! ## A look -/

theorem look_reordered
    (same : work.net.Reordered otherWork.net) (regular : work.net.Regular fun r => r.start < r.stop)
    (listed : id ∈ work.net.listed) (stop : Option StateId) {stack : CallStack} (invoking : work.net.Invoking stack) :
    ∃ found, ((look (some id) stop stack).runOn work).1 = .ok found ∧
      ((look (some id) stop stack).runOn otherWork).1 = .ok found ∧
        Canonical found.ranges ∧ (found.ranges? = none ↔ ∀ x, x ∉ found) := by
  obtain ⟨found, ok, alsoOk, kept, added⟩ := same.exists_lookahead regular { stop := stop } listed invoking
  rw [runOn_look, runOn_look]
  exact ⟨found, ok, alsoOk, kept.canonical, added.ranges?_eq_none_iff.trans kept.canonical.eq_nil_iff⟩

/-! ## Within a rule -/

theorem within_of_faithful
    (faithful : work.net.Faithful) (listed : id ∈ work.net.listed)
    (ok : work.net.lookahead {} (some id) .unknown = .ok found) : within work (some id) = .ok found.freeze := by
  rw [within_some]
  cases kept : (work.net.state id).withinRule with
  | none =>
      rw [ok]
      rfl
  | some known =>
      obtain ⟨other, alsoOk, same⟩ := faithful id listed known kept
      rw [ok] at alsoOk
      rw [same, ← Except.ok.inj alsoOk]
      rfl

/-- What is kept or found does not depend on the order. -/
theorem within_reordered
    (same : work.net.Reordered otherWork.net) (regular : work.net.Regular fun r => r.start < r.stop)
    (faithful : work.net.Faithful) (alsoFaithful : otherWork.net.Faithful) (listed : id ∈ work.net.listed) :
    ∃ following, within work (some id) = .ok following ∧ within otherWork (some id) = .ok following ∧
      (following.Kept fun r => r.start < r.stop) ∧ (following.ranges? = none ↔ following.ranges = []) := by
  obtain ⟨found, ok, alsoOk, kept, _⟩ := same.exists_lookahead regular {} listed Network.invoking_unknown
  have alsoListed : id ∈ otherWork.net.listed := same.samePaths.listed ▸ listed
  exact ⟨found.freeze, within_of_faithful faithful listed ok, within_of_faithful alsoFaithful alsoListed alsoOk, kept.freeze,
    RangeSet.ranges?_freeze_eq_none_iff⟩

/-- Without callers, what is kept or found within the rule is told, and otherwise what a look finds. -/
theorem next_reordered
    (same : work.net.Reordered otherWork.net) (regular : work.net.Regular fun r => r.start < r.stop)
    (faithful : work.net.Faithful) (alsoFaithful : otherWork.net.Faithful) (listed : id ∈ work.net.listed)
    {stack : CallStack} (invoking : work.net.Invoking stack) :
    ∃ found, ((next (some id) stack).runOn work).1 = .ok found ∧ ((next (some id) stack).runOn otherWork).1 = .ok found ∧
      Canonical found.ranges ∧ (found.ranges? = none ↔ ∀ x, x ∉ found) := by
  unfold next
  by_cases alone : stack = .unknown ∨ stack.atRoot = true
  · obtain ⟨following, ok, alsoOk, kept, absent⟩ := within_reordered same regular faithful alsoFaithful listed
    rw [if_pos alone, outcome_withinRule, outcome_withinRule]
    exact ⟨following, ok, alsoOk, kept.canonical, absent.trans kept.canonical.eq_nil_iff⟩
  · rw [if_neg alone]
    exact look_reordered same regular listed none invoking

/-! ## Out along a chain -/

theorem kept_union_erase
    (kept : found.Kept fun r => r.start < r.stop) {following : RangeSet}
    (followingKept : following.Kept fun r => r.start < r.stop) (x : Symbol) :
    ((found.union following).erase x).Kept fun r => r.start < r.stop := by
  obtain ⟨⟨bound, ascending⟩, filled⟩ := kept.union admits_filled followingKept.ranges
  have starts : ∀ r ∈ (found.union following).ranges, r.start = x → x < r.stop := by
    rintro r member rfl
    exact filled r member
  refine ⟨⟨bound, ?_⟩, ?_⟩
  · rw [RangeSet.ranges_erase]
    exact (eraseFromRanges_of_ascending ascending starts).1
  · rw [RangeSet.ranges_erase]
    exact eraseFromRanges_filled filled

/-- What a link leads to has the same symbols, or the link leads nowhere in both networks. -/
theorem level_reordered
    (same : work.net.Reordered otherWork.net) (regular : work.net.Regular fun r => r.start < r.stop)
    (faithful : work.net.Faithful) (alsoFaithful : otherWork.net.Faithful) (link : Int) :
    level otherWork link = level work link ∧
      ((∃ following, level work link = .ok following ∧ following.Kept fun r => r.start < r.stop) ∨
        ∃ fault, level work link = .error fault ∧ ¬ work.net.Invokes link) := by
  unfold level
  rw [same.followState regular.shape]
  cases followed : work.net.followState link with
  | error fault =>
      refine ⟨rfl, Or.inr ⟨fault, rfl, fun invokes => ?_⟩⟩
      obtain ⟨next, returns⟩ := regular.shape.exists_returnsTo invokes
      rw [regular.shape.followState_eq_ok_iff.mpr returns] at followed
      contradiction
  | ok follow =>
      cases follow with
      | none => exact absurd followed regular.shape.followState_ne_ok_none
      | some next =>
          have returns := regular.shape.followState_eq_ok_iff.mp followed
          have listed := (regular.shape.returnsTo returns).1
          obtain ⟨following, ok, alsoOk, kept, _⟩ := within_reordered same regular faithful alsoFaithful listed
          exact ⟨alsoOk.trans ok.symm, Or.inl ⟨following, ok, kept⟩⟩

/-- Link by link, what is added is the same; and a link that leads nowhere does so in both networks. -/
theorem gather_reordered
    (same : work.net.Reordered otherWork.net) (regular : work.net.Regular fun r => r.start < r.stop)
    (faithful : work.net.Faithful) (alsoFaithful : otherWork.net.Faithful) (kept : found.Kept fun r => r.start < r.stop)
    (links : List Int) (nonneg : ∀ link ∈ links, 0 ≤ link) :
    gather (links.map (level otherWork)) found = gather (links.map (level work)) found ∧
      Orderly (¬ work.net.Invoking links) (gather (links.map (level work)) found) := by
  induction links generalizing found with
  | nil => exact ⟨rfl, (kept.insertRange admits_filled (Int.lt_succ _)).canonical⟩
  | cons link outer inductionHypothesis =>
      obtain ⟨sameLevel, computed⟩ := level_reordered same regular faithful alsoFaithful link
      rw [List.map_cons, List.map_cons, gather, gather, sameLevel]
      rcases computed with ⟨following, ok, followingKept⟩ | ⟨fault, failed, lost⟩
      · have stays := kept_union_erase kept followingKept Symbol.epsilon
        rw [ok]
        simp only [Except.bind]
        by_cases canEnd : Symbol.epsilon ∈ following
        · rw [if_pos canEnd, if_pos canEnd]
          obtain ⟨equal, orderly⟩ := inductionHypothesis stays fun link member =>
            nonneg link (List.mem_cons_of_mem _ member)
          refine ⟨equal, orderly.mono fun lost invoking => lost ?_⟩
          exact fun link member => invoking link (List.mem_cons_of_mem _ member)
        · rw [if_neg canEnd, if_neg canEnd]
          exact ⟨rfl, stays.canonical⟩
      · rw [failed]
        exact ⟨rfl, fun invoking => lost (invoking link List.mem_cons_self (nonneg link List.mem_cons_self))⟩

theorem expected_reordered
    (same : work.net.Reordered otherWork.net) (regular : work.net.Regular fun r => r.start < r.stop)
    (faithful : work.net.Faithful) (alsoFaithful : otherWork.net.Faithful) (number : Int) (stack : CallStack) :
    ((expected number stack).runOn otherWork).1 = ((expected number stack).runOn work).1 ∧
      ∀ id, work.net.slot? number = some id →
        Orderly (¬ work.net.Invoking stack.links) ((expected number stack).runOn work).1 := by
  rw [outcome_expected, outcome_expected, same.samePaths.slot?, same.slots]
  cases slot : work.net.slot? number with
  | none =>
      refine ⟨rfl, fun id present => ?_⟩
      contradiction
  | some id =>
      obtain ⟨following, ok, alsoOk, kept, _⟩ :=
        within_reordered same regular faithful alsoFaithful (Network.mem_listed_of_slot? slot)
      rw [Option.elim_some, Option.elim_some, gatherFrom, gatherFrom, ok, alsoOk]
      simp only [Except.bind]
      by_cases canEnd : Symbol.epsilon ∈ following
      · rw [if_pos canEnd, if_pos canEnd]
        have stays := kept_union_erase .empty kept Symbol.epsilon
        have nonneg : ∀ link ∈ stack.links, 0 ≤ link := CallStack.invoked_links stack
        obtain ⟨equal, orderly⟩ := gather_reordered same regular faithful alsoFaithful stays _ nonneg
        exact ⟨equal, fun _ _ => orderly⟩
      · rw [if_neg canEnd, if_neg canEnd]
        exact ⟨rfl, fun _ _ => kept.canonical⟩

/-! ## Alternatives -/

/-- What comes after a transition is told for the transition alone, wherever it stands. -/
theorem alternative_reordered
    (same : net.Reordered other) (regular : net.Regular fun r => r.start < r.stop) {t : Transition}
    (listed : t.target ∈ net.listed) :
    ∃ answer, alternative net t = .ok answer ∧ alternative other t = .ok answer ∧
      ∀ found ∈ answer, Canonical found.ranges := by
  obtain ⟨found, ok, alsoOk, kept, _⟩ :=
    same.exists_lookahead regular { throughPredicates := false, marksEnd := false } listed Network.invoking_root
  rw [alternative_of_ok ok, alternative_of_ok alsoOk]
  by_cases useless : found.ranges? = none ∨ Symbol.invalid ∈ found
  · rw [if_pos useless]
    exact ⟨none, rfl, rfl, nofun⟩
  · rw [if_neg useless]
    refine ⟨some found, rfl, rfl, fun other answered => ?_⟩
    obtain rfl := Option.some.inj answered
    exact kept.canonical

theorem alternatives_reordered
    (same : work.net.Reordered otherWork.net) (regular : work.net.Regular fun r => r.start < r.stop)
    (listed : id ∈ work.net.listed) :
    ∃ f : Transition → Option RangeSet,
      ((alternatives (some id)).runOn work).1 = .ok (some ((work.net.state id).transitions.map f)) ∧
        ((alternatives (some id)).runOn otherWork).1 = .ok (some ((otherWork.net.state id).transitions.map f)) ∧
          ∀ t ∈ (work.net.state id).transitions, ∀ found ∈ f t, Canonical found.ranges := by
  have answers : ∀ t ∈ (work.net.state id).transitions, ∃ answer, alternative work.net t = .ok answer ∧
      alternative otherWork.net t = .ok answer ∧ ∀ found ∈ answer, Canonical found.ranges := fun t member =>
    alternative_reordered same regular (regular.shape.targets id listed t member).1
  choose! f ok alsoOk canonical using answers
  refine ⟨f, outcome_alternatives ok, outcome_alternatives ?_, canonical⟩
  intro t member
  exact alsoOk t ((same.samePaths.transitions id t).mp member)

end Order

/-! ## Answers -/

/-- On a regular network, answers do not depend on the order in which transitions leave their states. What is looked ahead
to is the same canonical list of ranges, which is absent exactly if nothing can come, and each alternative keeps its
answer. So it is with what can come next, and with what is expected, if the states keep nothing but what was found on
their graph. What is expected fails only under callers of which a link invokes no rule, or for a number that no state
has, and then it does so in both networks alike. -/
theorem answers_independent_of_order
    (work otherWork : Workspace) (regular : work.net.Regular fun r => r.start < r.stop)
    (reordered : work.net.Reordered otherWork.net) :
    (∀ start ∈ work.net.listed, ∀ (stop : Option StateId) (callers : Callers), work.net.Invoking callers.stack →
      ∃ found, ((look (some start) stop callers.stack).runOn work).1 = .ok found ∧
        ((look (some start) stop callers.stack).runOn otherWork).1 = .ok found ∧
          Canonical found.ranges ∧ (found.ranges? = none ↔ ∀ x, x ∉ found)) ∧
    (∀ id ∈ work.net.listed, ∃ f : Transition → Option RangeSet,
      ((alternatives (some id)).runOn work).1 = .ok (some ((work.net.state id).transitions.map f)) ∧
        ((alternatives (some id)).runOn otherWork).1 = .ok (some ((otherWork.net.state id).transitions.map f)) ∧
          ∀ t ∈ (work.net.state id).transitions, ∀ found ∈ f t, Canonical found.ranges) ∧
    (work.net.Faithful → otherWork.net.Faithful →
      (∀ start ∈ work.net.listed, ∀ callers : Callers, work.net.Invoking callers.stack →
        ∃ found, ((next (some start) callers.stack).runOn work).1 = .ok found ∧
          ((next (some start) callers.stack).runOn otherWork).1 = .ok found ∧
            Canonical found.ranges ∧ (found.ranges? = none ↔ ∀ x, x ∉ found)) ∧
      ∀ (number : Int) (callers : Callers),
        ((expected number callers.stack).runOn otherWork).1 = ((expected number callers.stack).runOn work).1 ∧
          ∀ id, work.net.slot? number = some id →
            Orderly (¬ work.net.Invoking callers.stack.links) ((expected number callers.stack).runOn work).1) := by
  refine ⟨?_, ?_, fun faithful alsoFaithful => ⟨?_, ?_⟩⟩
  · intro start listed stop callers invoking
    exact look_reordered reordered regular listed stop invoking
  · intro id listed
    exact alternatives_reordered reordered regular listed
  · intro start listed callers invoking
    exact next_reordered reordered regular faithful alsoFaithful listed invoking
  · intro number callers
    exact expected_reordered reordered regular faithful alsoFaithful number callers.stack

/-- The two ways through `e` in `e : e 1 | 2 ;`, the other way around. -/
def leftRecursionReordered : Network := leftRecursion.withTransitions 3 [⟨5, .epsilon (-1)⟩, ⟨4, .epsilon (-1)⟩]

/-- The answers in `e` do not depend on which of the two ways comes first, whether they are looked up or kept. -/
theorem answers_independent_of_order_leftRecursion :
    (leftRecursion.Regular fun r => r.start < r.stop) ∧ leftRecursion.Reordered leftRecursionReordered ∧
      leftRecursion.Faithful ∧ leftRecursionReordered.Faithful ∧
        (∃ found, ((look (some 3) none [1, -1]).runOn ⟨leftRecursion, []⟩).1 = .ok found ∧
          ((look (some 3) none [1, -1]).runOn ⟨leftRecursionReordered, []⟩).1 = .ok found ∧ Canonical found.ranges) ∧
        ∃ found, ((next (some 3) .unknown).runOn ⟨leftRecursion, []⟩).1 = .ok found ∧
          ((next (some 3) .unknown).runOn ⟨leftRecursionReordered, []⟩).1 = .ok found ∧ Canonical found.ranges := by
  have reordered : leftRecursion.Reordered leftRecursionReordered := .of_withTransitions (.swap _ _ _)
  have faithful : leftRecursion.Faithful := Network.faithful_of_unknown (by decide)
  have alsoFaithful : leftRecursionReordered.Faithful := Network.faithful_of_unknown (by decide)
  obtain ⟨looks, _, kept⟩ :=
    answers_independent_of_order ⟨leftRecursion, []⟩ ⟨leftRecursionReordered, []⟩ leftRecursion_filled reordered
  obtain ⟨found, ok, alsoOk, canonical, _⟩ := looks 3 (by decide) none (.chain [1, -1]) (by decide)
  obtain ⟨following, nextOk, alsoNextOk, alsoCanonical, _⟩ :=
    (kept faithful alsoFaithful).1 3 (by decide) (.chain .unknown) (by decide)
  exact ⟨leftRecursion_filled, reordered, faithful, alsoFaithful, ⟨found, ok, alsoOk, canonical⟩,
    following, nextOk, alsoNextOk, alsoCanonical⟩

/-- The two ways out of the first state, the other way around. -/
def sharedRuleReordered : Network := sharedRule.withTransitions 0 [⟨2, .epsilon (-1)⟩, ⟨1, .epsilon (-1)⟩]

/-- Now the search comes to the second state first, before any rule was entered. -/
theorem lookahead_sharedRuleReordered :
    sharedRuleReordered.lookahead {} (some 0) [6, -1] = .ok ⟨some [⟨5, 6⟩], false⟩ := by
  have ends : Search.Ends sharedRuleReordered {} (Search.start (some 0) [6, -1]) (.ok ⟨some [⟨5, 6⟩], false⟩) 9 :=
    .step rfl (Search.perform_visit_of_not_mem rfl (by simp [Search.start]) rfl)
      (.step rfl (Search.perform_visit_of_not_mem rfl (by simp [Search.start]; decide) rfl)
        (.step rfl (Search.perform_visit_of_not_mem rfl (by simp [Search.start, CallStack.push]) rfl)
          (.step rfl (Search.perform_consume_of_ok rfl)
            (.step rfl (Search.perform_visit_of_not_mem rfl (by simp [Search.start, CallStack.push]; decide) rfl)
              (.step rfl (Search.perform_visit_of_not_mem rfl (by simp [Search.start, CallStack.push]) rfl)
                (.step rfl (Search.perform_visit_of_not_mem rfl (by simp [Search.start, CallStack.push]; decide) rfl)
                  (.step rfl (Search.perform_visit_of_not_mem rfl (by simp [Search.start, CallStack.push]; decide) rfl)
                    (.step rfl (Search.perform_visit_of_mem rfl (by simp [Search.start, CallStack.push]; decide))
                      (.done rfl)))))))))
  exact ends.lookahead_eq

/-- With two entries of a rule that can come back to itself, the order shows in what is looked ahead to. -/
theorem look_depends_on_order_with_two_entries :
    ¬ ∀ (work otherWork : Workspace) (start : StateId) (stop : Option StateId) (callers : Callers),
      work.net.WellFormed → (work.net.Labelled fun r => r.start < r.stop) → work.net.Guarded →
        work.net.Reordered otherWork.net → start ∈ work.net.listed → work.net.Invoking callers.stack →
          ((look (some start) stop callers.stack).runOn otherWork).1 =
            ((look (some start) stop callers.stack).runOn work).1 := by
  intro claim
  have same := claim ⟨sharedRule, []⟩ ⟨sharedRuleReordered, []⟩ 0 none (.chain [6, -1]) (by decide) (by decide)
    sharedRule_guarded (.of_withTransitions (.swap _ _ _)) (by decide) (by decide)
  rw [runOn_look, runOn_look] at same
  exact absurd (lookahead_sharedRuleReordered.symm.trans (same.trans lookahead_sharedRule)) (by decide)

end Lookahead

end GrammarNet
