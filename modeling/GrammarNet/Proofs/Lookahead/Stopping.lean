import GrammarNet.Proofs.Lookahead.Invocation
import GrammarNet.Proofs.Search.Passing

/-!
# Lookahead up to a state

A look that stops at a state and a look from there make up the look that does not stop, if no path within one invocation
leads around the state. The state may also be met within an invocation of its own rule, where the look goes on.
-/

namespace GrammarNet

namespace Lookahead

/-- On every well-formed network whose labels hold no inverted range and no mark of the end: if all paths within one
invocation from a state to a rule stop pass through a second state, then what can come next from the first one is what
can come next up to the second one, without the mark of the end, together with what can come next from the second one if
the mark is there. Only paths that consume nothing have to pass through it. -/
theorem look_composes
    (work : Workspace) (shape : work.net.WellFormed) (labelled : work.net.Labelled fun r => r.start ≤ r.stop)
    (unmarked : work.net.Unmarked) (start through : StateId) (listed : start ∈ work.net.listed)
    (throughListed : through ∈ work.net.listed) (separates : work.net.Separates through start) :
    ∃ whole upTo beyond,
      (look (some start) none .unknown).runOn work = (.ok whole, work) ∧
      (look (some start) (some through) .unknown).runOn work = (.ok upTo, work) ∧
      (look (some through) none .unknown).runOn work = (.ok beyond, work) ∧
      (∀ x, x ∈ whole ↔ (x ∈ upTo ∧ x ≠ Symbol.epsilon) ∨ (Symbol.epsilon ∈ upTo ∧ x ∈ beyond)) ∧
      (Symbol.epsilon ∈ whole ↔ Symbol.epsilon ∈ upTo ∧ Symbol.epsilon ∈ beyond) := by
  simp only [runOn_look]
  obtain ⟨whole, wholeOk, wholeShows⟩ :=
    Search.exists_lookahead_shows {} shape admits_upright labelled listed
  obtain ⟨upTo, upToOk, upToShows⟩ :=
    Search.exists_lookahead_shows { stop := some through } shape admits_upright labelled listed
  obtain ⟨beyond, beyondOk, beyondShows⟩ :=
    Search.exists_lookahead_shows {} shape admits_upright labelled throughListed
  have composes : ∀ x, x ∈ whole ↔ (x ∈ upTo ∧ x ≠ Symbol.epsilon) ∨ (Symbol.epsilon ∈ upTo ∧ x ∈ beyond) := by
    intro x
    rw [wholeShows, upToShows, upToShows, beyondShows]
    exact Search.shows_iff_of_separates shape unmarked.search listed separates
  refine ⟨whole, upTo, beyond, by rw [wholeOk], by rw [upToOk], by rw [beyondOk], composes, ?_⟩
  rw [composes, or_iff_right fun marked => marked.2 rfl]

/-- The network of `r : ( r 1 | ) 2 ;`. -/
def optionalRecursion : Network :=
  .ofStates 2 [
    { kind := .ruleStart, rule := 0, transitions := [⟨2, .epsilon (-1)⟩] },
    { kind := .ruleStop, rule := 0 },
    { kind := .basicBlockStart, rule := 0, transitions := [⟨4, .epsilon (-1)⟩, ⟨3, .epsilon (-1)⟩] },
    { kind := .blockEnd, rule := 0, transitions := [⟨1, .atom 2 (.single 2)⟩] },
    { kind := .basic, rule := 0, transitions := [⟨0, .rule 0 0 (some 5)⟩] },
    { kind := .basic, rule := 0, transitions := [⟨3, .atom 1 (.single 1)⟩] }]

/-- The end of the block is met outside all invocations, and within the one that the block makes. -/
theorem look_composes_optionalRecursion :
    optionalRecursion.WellFormed ∧ optionalRecursion.Separates 3 2 ∧ ∃ whole upTo beyond,
      (look (some 2) none .unknown).runOn ⟨optionalRecursion, []⟩ = (.ok whole, ⟨optionalRecursion, []⟩) ∧
      (look (some 2) (some 3) .unknown).runOn ⟨optionalRecursion, []⟩ = (.ok upTo, ⟨optionalRecursion, []⟩) ∧
      (look (some 3) none .unknown).runOn ⟨optionalRecursion, []⟩ = (.ok beyond, ⟨optionalRecursion, []⟩) ∧
      (∀ x, x ∈ whole ↔ (x ∈ upTo ∧ x ≠ Symbol.epsilon) ∨ (Symbol.epsilon ∈ upTo ∧ x ∈ beyond)) ∧
      (Symbol.epsilon ∈ whole ↔ Symbol.epsilon ∈ upTo ∧ Symbol.epsilon ∈ beyond) := by
  have shape : optionalRecursion.WellFormed := by decide
  have enclosed : optionalRecursion.Enclosed 3 [2, 4, 5] := by decide
  have separates := enclosed.separates List.mem_cons_self
  exact ⟨shape, separates,
    look_composes ⟨optionalRecursion, []⟩ shape (by decide) (by decide) 2 3 (by decide) (by decide) separates⟩

end Lookahead

end GrammarNet
