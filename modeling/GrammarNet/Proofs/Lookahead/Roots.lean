import GrammarNet.Proofs.Lookahead.Exact
import GrammarNet.Proofs.Lookahead.Evaluation
import GrammarNet.Proofs.Pushdown.Frame
import GrammarNet.Proofs.Search.Rebased

/-!
# Callers up to the root

Only the states that invoked rules up to the first root link matter to a query, however callers are presented: as a chain
or as the frames of a parser, and whatever the root link is and whatever lies beyond it. The symbols that are expected do
not even depend on whether there is a root.
-/

namespace GrammarNet

namespace Callers

/-- The links of the callers as they are presented, innermost first. -/
def presented : Callers → List Int
  | chain stack => stack
  | frames innermost outer => innermost :: outer

/-- A chain has a root link. The frames of a parser may do without one. -/
def Ended : Callers → Prop
  | chain stack => ∃ link ∈ stack, link < 0
  | frames _ _ => True

end Callers

namespace CallStack

theorem links_append_of_atRoot
    {links : List Int} {base : CallStack} (invoked : CallStack.Invoked links) (rooted : base.atRoot = true) :
    CallStack.links (links ++ base) = links := by
  have stays : ∀ link ∈ links, decide (0 ≤ link) = true := fun link member => decide_eq_true (invoked link member)
  unfold CallStack.links
  rw [List.takeWhile_append_of_pos stays]
  cases base with
  | nil => exact nomatch rooted
  | cons link outer =>
      have negative : link < 0 := of_decide_eq_true rooted
      rw [List.takeWhile_cons_of_neg (by simpa using negative), List.append_nil]

/-- A chain with a root link is its links on top of what begins with that root. -/
theorem exists_eq_links_append {stack : CallStack} (ended : ∃ link ∈ stack, link < 0) :
    ∃ base : CallStack, base.atRoot = true ∧ stack = stack.links ++ base := by
  induction stack with
  | nil =>
      obtain ⟨link, member, _⟩ := ended
      exact nomatch member
  | cons innermost outer inductionHypothesis =>
      by_cases invoked : 0 ≤ innermost
      · have further : ∃ link ∈ outer, link < 0 := by
          obtain ⟨link, member, negative⟩ := ended
          rcases List.mem_cons.mp member with rfl | later
          · exact absurd invoked (Int.not_le.mpr negative)
          · exact ⟨link, later, negative⟩
        obtain ⟨base, rooted, same⟩ := inductionHypothesis further
        refine ⟨base, rooted, ?_⟩
        have stays : CallStack.links (innermost :: outer) = innermost :: CallStack.links outer :=
          List.takeWhile_cons_of_pos (decide_eq_true invoked)
        rw [stays, List.cons_append, ← same]
      · have stops : CallStack.links (innermost :: outer) = [] :=
          List.takeWhile_cons_of_neg (by simpa using invoked)
        refine ⟨innermost :: outer, decide_eq_true (Int.not_le.mp invoked), ?_⟩
        rw [stops, List.nil_append]

end CallStack

namespace Callers

theorem links_stack (callers : Callers) : callers.stack.links = CallStack.links callers.presented := by
  cases callers with
  | chain stack => rfl
  | frames innermost outer => exact CallStack.links_append_of_atRoot (CallStack.invoked_links _) rfl

theorem Ended.exists_stack_eq {callers : Callers} (ended : callers.Ended) :
    ∃ base : CallStack, base.atRoot = true ∧ callers.stack = callers.stack.links ++ base := by
  cases callers with
  | chain stack => exact CallStack.exists_eq_links_append ended
  | frames innermost outer =>
      apply CallStack.exists_eq_links_append
      exact ⟨-1, List.mem_append_right _ (List.mem_singleton.mpr rfl), by decide⟩

end Callers

namespace Lookahead

open NetM

section Roots

variable {first second base other : CallStack} {links : List Int}

theorem expected_eq_of_links_eq (number : Int) (same : first.links = second.links) :
    expected number first = expected number second := by
  unfold expected
  rw [same]

theorem look_append_eq
    (state stop : Option StateId) (links : List Int) (rooted : base.atRoot = true) (alsoRooted : other.atRoot = true) :
    look state stop (links ++ base) = look state stop (links ++ other) := by
  unfold look
  simp only [Network.lookahead_append_eq _ _ _ links rooted alsoRooted]

/-- Whether the outermost rule was called at all does not depend on the root. -/
theorem next_append_eq
    (state : Option StateId) (invoked : CallStack.Invoked links) (rooted : base.atRoot = true)
    (alsoRooted : other.atRoot = true) : next state (links ++ base) = next state (links ++ other) := by
  unfold next
  cases links with
  | nil =>
      have uncalled : ([] ++ base = CallStack.unknown ∨ CallStack.atRoot ([] ++ base) = true) := Or.inr rooted
      have alsoUncalled : ([] ++ other = CallStack.unknown ∨ CallStack.atRoot ([] ++ other) = true) := Or.inr alsoRooted
      rw [if_pos uncalled, if_pos alsoUncalled]
  | cons link outer =>
      have nonneg := (CallStack.invoked_cons_iff.mp invoked).1
      have called : ∀ chain : CallStack,
          ¬ (link :: outer ++ chain = CallStack.unknown ∨ CallStack.atRoot (link :: outer ++ chain) = true) := by
        rintro chain (empty | negative)
        · exact nomatch empty
        · exact Int.not_le.mpr (of_decide_eq_true negative) nonneg
      rw [if_neg (called base), if_neg (called other), look_append_eq state none (link :: outer) rooted alsoRooted]

/-- On every network, callers with the same links up to the first root link get the same answers, or the same faults: the
symbols expected, and if both have a root, or are the frames of a parser, what can come next, and what a look finds up to
any state. -/
theorem ask_eq_of_links_eq
    (work : Workspace) (first second : Callers)
    (same : CallStack.links first.presented = CallStack.links second.presented) :
    (∀ number, (Query.expected number first).ask.runOn work = (Query.expected number second).ask.runOn work) ∧
    (first.Ended → second.Ended → ∀ state,
      (Query.next state first).ask.runOn work = (Query.next state second).ask.runOn work ∧
      ∀ stop, (Query.look state stop first).ask.runOn work = (Query.look state stop second).ask.runOn work) := by
  have sameLinks : first.stack.links = second.stack.links := by
    rw [first.links_stack, second.links_stack, same]
  constructor
  · intro number
    unfold Query.ask
    simp only [expected_eq_of_links_eq number sameLinks]
  · intro ended alsoEnded state
    obtain ⟨base, rooted, stack⟩ := ended.exists_stack_eq
    obtain ⟨other, alsoRooted, alsoStack⟩ := alsoEnded.exists_stack_eq
    rw [← sameLinks] at alsoStack
    have invoked := CallStack.invoked_links first.stack
    have sameNext : next state first.stack = next state second.stack := by
      rw [stack, alsoStack]
      exact next_append_eq state invoked rooted alsoRooted
    have sameLook : ∀ stop, look state stop first.stack = look state stop second.stack := by
      intro stop
      rw [stack, alsoStack]
      exact look_append_eq state stop first.stack.links rooted alsoRooted
    unfold Query.ask
    simp only [sameNext, sameLook, implies_true, and_self]

/-- A chain with another root and a link beyond it, and the frames of a parser that have no root. -/
theorem ask_eq_of_links_eq_leftRecursion :
    (Query.expected 7 (.chain [4, 1, -5, 99])).ask.runOn ⟨leftRecursion, []⟩ =
        (Query.expected 7 (.frames 4 [1])).ask.runOn ⟨leftRecursion, []⟩ ∧
      (Query.next (some 7) (.chain [4, 1, -5, 99])).ask.runOn ⟨leftRecursion, []⟩ =
        (Query.next (some 7) (.frames 4 [1])).ask.runOn ⟨leftRecursion, []⟩ ∧
      (Query.look (some 7) (some 6) (.chain [4, 1, -5, 99])).ask.runOn ⟨leftRecursion, []⟩ =
        (Query.look (some 7) (some 6) (.frames 4 [1])).ask.runOn ⟨leftRecursion, []⟩ := by
  have ended : (Callers.chain [4, 1, -5, 99]).Ended := ⟨-5, by decide, by decide⟩
  obtain ⟨sameExpected, others⟩ :=
    ask_eq_of_links_eq ⟨leftRecursion, []⟩ (.chain [4, 1, -5, 99]) (.frames 4 [1]) (by decide)
  obtain ⟨sameNext, sameLook⟩ := others ended trivial (some 7)
  exact ⟨sameExpected 7, sameNext, sameLook (some 6)⟩

end Roots

end Lookahead

end GrammarNet
