import GrammarNet.Proofs.Lookahead.Kept

/-!
# Levels of a chain of callers

Which symbols are expected is gathered level by level: within the rule of the state itself, then within the rules to which
the links return, as long as the rules can end. What a level has is the same at any time, since what is kept on the way is
what would be found. So the outcome is told by the levels, and by no more of them than up to the first that does not end.
-/

namespace GrammarNet

namespace Lookahead

open NetM

/-! ## Levels -/

/-- What can come next within the rule of a state. -/
def within (work : Workspace) (state : Option StateId) : Except Fault RangeSet := ((next state .unknown).runOn work).1

/-- What can come next within the rule to which a link returns. -/
def level (work : Workspace) (link : Int) : Except Fault RangeSet := (work.net.followState link).bind (within work)

/-- The levels under a chain of callers: the state itself, then where the links return to, the innermost first. -/
def levels (work : Workspace) (id : StateId) (links : List Int) : List (Except Fault RangeSet) :=
  within work (some id) :: links.map (level work)

/-- What is found from one level to the next, on top of what was found before, as long as the rules can end. Beyond the
last level, the input may end. -/
def gather : List (Except Fault RangeSet) → RangeSet → Except Fault RangeSet
  | [], found => .ok (found.insert Symbol.endOfInput)
  | level :: outer, found =>
      level.bind fun following =>
        let found := (found.union following).erase Symbol.epsilon
        if Symbol.epsilon ∈ following then gather outer found else .ok found

/-- What is expected from the first level on. If its rule cannot end, it is the very set of that level. -/
def gatherFrom (first : Except Fault RangeSet) (outer : List (Except Fault RangeSet)) : Except Fault RangeSet :=
  first.bind fun following =>
    if Symbol.epsilon ∈ following then gather outer ((RangeSet.empty.union following).erase Symbol.epsilon)
    else .ok following

section Outcomes

variable {work later : Workspace}

theorem next_unknown (state : Option StateId) : next state .unknown = withinRule state := if_pos (Or.inl rfl)

theorem outcome_withinRule (work : Workspace) (state : Option StateId) :
    ((withinRule state).runOn work).1 = within work state := by
  rw [within, next_unknown]

theorem within_none (work : Workspace) : within work none = .error .noState := by
  rw [within, next_unknown]
  rfl

/-- What is kept with a state is taken, and searched for if there is none. -/
theorem within_some (work : Workspace) (id : StateId) :
    within work (some id) = (work.net.state id).withinRule.elim
      ((work.net.lookahead {} (some id) .unknown).map RangeSet.freeze) .ok := by
  have evaluated := withinRule_runOn work (some id)
  rw [← outcome_withinRule]
  generalize (withinRule (some id)).runOn work = answer at evaluated
  cases evaluated with
  | known kept =>
      rw [kept]
      rfl
  | failed unknown searches | found unknown searches =>
      rw [unknown, searches.lookahead_eq]
      rfl

/-- If what is kept is what searches find, it makes no difference. -/
theorem within_of_truthful (truthful : work.net.Truthful) (id : StateId) :
    within work (some id) = (work.net.lookahead {} (some id) .unknown).map RangeSet.freeze := by
  rw [← outcome_withinRule]
  exact (withinRule_runOn work (some id)).outcome_eq truthful

/-- At the stop of a rule, nothing comes next within it. -/
theorem within_of_isRuleStop (truthful : work.net.Truthful) {id : StateId} (stops : (work.net.state id).isRuleStop = true) :
    within work (some id) = .ok ⟨some [.single Symbol.epsilon], true⟩ := by
  have ends : Search.Ends work.net {} (Search.start (some id) .unknown)
      (.ok ⟨some [.single Symbol.epsilon], false⟩) 2 :=
    .step rfl (Search.perform_visit_of_not_mem rfl (by simp [Search.start]) (if_pos (Or.inr stops)))
      (.step rfl rfl (.done rfl))
  rw [within_of_truthful truthful, ends.lookahead_eq]
  rfl

/-- What is filled in does not show in an answer. -/
theorem within_of_fills (fills : work.net.Fills later.net) : within later = within work := by
  funext state
  cases state with
  | none => rw [within_none, within_none]
  | some id =>
      rw [within_some, within_some, fills.same.lookahead]
      rcases fills.kept id with unchanged | ⟨unknown, found, ok, filled⟩
      · rw [unchanged]
      · rw [unknown, filled, ok]
        rfl

/-- Going out along the links gathers their levels. -/
theorem outcome_expectedBeyond (links : List Int) (found : RangeSet) (fills : work.net.Fills later.net) :
    ((expectedBeyond links found).runOn later).1 = gather (links.map (level work)) found := by
  -- The levels are those of the first workspace; what was filled in since then leaves them as they were.
  induction links generalizing later found with
  | nil => rfl
  | cons link outer inductionHypothesis =>
      rw [expectedBeyond, runOn_bind, runOn_network, List.map_cons, gather]
      simp only [fills.same.followState]
      rw [runOn_bind, runOn_lift]
      cases followed : work.net.followState link with
      | error fault =>
          rw [level, followed]
          rfl
      | ok follow =>
          have here : level work link = within later follow := by
            rw [level, followed, within_of_fills fills]
            rfl
          have further := fills.trans (withinRule_runOn later follow).fills
          rw [here, ← outcome_withinRule]
          simp only [runOn_bind]
          generalize (withinRule follow).runOn later = answer at further
          obtain ⟨told, last⟩ := answer
          cases told with
          | error fault => rfl
          | ok following =>
              simp only [Except.bind]
              by_cases canEnd : Symbol.epsilon ∈ following
              · rw [if_pos canEnd, if_pos canEnd]
                exact inductionHypothesis _ further
              · rw [if_neg canEnd, if_neg canEnd]
                rfl

theorem outcome_expected (work : Workspace) (number : Int) (stack : CallStack) :
    ((expected number stack).runOn work).1 =
      (work.net.slot? number).elim (.error (.invalidStateNumber number work.net.slots.size)) fun id =>
        gatherFrom (within work (some id)) (stack.links.map (level work)) := by
  rw [expected, runOn_bind, runOn_network]
  simp only
  cases work.net.slot? number with
  | none => rfl
  | some id =>
      have fills := (withinRule_runOn work (some id)).fills
      rw [Option.elim_some, gatherFrom, ← outcome_withinRule]
      simp only [runOn_bind]
      generalize (withinRule (some id)).runOn work = answer at fills
      obtain ⟨told, later⟩ := answer
      cases told with
      | error fault => rfl
      | ok following =>
          simp only [Except.bind]
          by_cases canEnd : Symbol.epsilon ∈ following
          · rw [if_pos canEnd, if_pos canEnd]
            exact outcome_expectedBeyond _ _ fills
          · rw [if_neg canEnd, if_neg canEnd]
            rfl

end Outcomes

end Lookahead

end GrammarNet
