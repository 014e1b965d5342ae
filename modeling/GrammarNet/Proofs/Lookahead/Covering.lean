import Mathlib.Data.List.Forall2
import GrammarNet.Proofs.Construction.Ruled
import GrammarNet.Proofs.Lookahead.Analyses
import GrammarNet.Proofs.Search.Direct

/-!
# The lookahead of a decision covers that of its callers

What an alternative of a decision is looked ahead to, without knowing anything about the callers, holds whatever can
come first after it under any chain of callers that fits its rule.
-/

namespace GrammarNet

namespace Network

/-! ## Callers on the same graph -/

section Callers

variable {net other : Network} {rule : Int} {links : List Int}

theorem SameGraph.leadsBack (same : net.SameGraph other) (back : net.LeadsBack) : other.LeadsBack := by
  intro stop listed stops invoker invokerListed t member invokes sameRule next follow
  rw [same.listed] at listed invokerListed
  rw [same.isRuleStop] at stops
  rw [same.transitions] at member
  rw [same.rule, same.rule] at sameRule
  rw [same.transitions]
  exact back stop listed stops invoker invokerListed t member invokes sameRule next follow

theorem SameGraph.callChain (same : net.SameGraph other) (chain : net.CallChain rule links) :
    other.CallChain rule links := by
  induction chain with
  | nil => exact .nil
  | @cons rule link outer invoker t found member invokes calls _ inductionHypothesis =>
      rw [← same.slot?] at found
      rw [← same.transitions] at member
      rw [← same.rule] at calls inductionHypothesis
      exact .cons found member invokes calls inductionHypothesis

theorem CallChain.invoking (chain : net.CallChain rule links) : net.Invoking (.rooted links) := by
  induction chain with
  | nil => exact invoking_root
  | @cons _ link outer invoker t found member invokes _ _ inductionHypothesis =>
      intro other inStack nonneg
      rcases List.mem_cons.mp inStack with rfl | outside
      · exact ⟨invoker, found, t, member, invokes⟩
      · exact inductionHypothesis other outside nonneg

end Callers

end Network

namespace Lookahead

open Construction NetM

section Covering

variable {net : Network} {work : Workspace}

/-- The alternatives of a state are answered one by one. -/
theorem AlternativesFrom.answered
    {s : State} {index : Nat} {transitions : List Transition} {answer : Except Fault (List (Option RangeSet)) × Workspace}
    (evaluation : AlternativesFrom s work index transitions answer) {found : List (Option RangeSet)}
    (ok : answer.1 = .ok found) :
    List.Forall₂ (fun t shown => Alternative work.net t (.ok shown)) transitions found := by
  induction evaluation generalizing found with
  | done =>
      obtain rfl := Except.ok.inj ok
      exact .nil
  | failed _ => contradiction
  | @next work later index t rest first outcome alternative _ inductionHypothesis =>
      cases outcome with
      | error fault => contradiction
      | ok others =>
          obtain rfl := Except.ok.inj ok
          exact .cons alternative (inductionHypothesis rfl)

/-- An alternative that has a lookahead is looked at under the root alone, and no predicate comes before a symbol. -/
theorem Alternative.lookahead_eq
    {t : Transition} {shown : RangeSet} (alternative : Alternative net t (.ok (some shown))) :
    net.lookahead .deciding (some t.target) .root = .ok shown ∧ Symbol.invalid ∉ shown := by
  cases alternative with
  | answered searches useful => exact ⟨searches.lookahead_eq, fun hit => useful (Or.inr hit)⟩

/-- What comes first under callers that fit the rule is in the lookahead of the alternative. -/
theorem mem_alternative_of_first
    (regular : net.Regular fun r => r.start ≤ r.stop) (back : net.LeadsBack) {t : Transition} {shown : RangeSet}
    (inside : Network.WellFormed.Inside net t.target) (ok : net.lookahead .deciding (some t.target) .root = .ok shown)
    (unhit : Symbol.invalid ∉ shown) {links : List Int} (chain : net.CallChain (net.state t.target).rule links) {x : Symbol}
    (first : net.First {} ⟨t.target, .rooted links⟩ x) (real : x ≠ Symbol.endOfInput) : x ∈ shown := by
  obtain ⟨found, alsoOk, _, exact⟩ :=
    regular.exists_lookahead admits_upright .deciding inside.1 Network.invoking_root
  rw [ok] at alsoOk
  obtain rfl := Except.ok.inj alsoOk
  have shadow : net.Shadow ⟨t.target, [] ++ CallStack.rooted links⟩ ⟨t.target, [] ++ CallStack.root⟩ :=
    .intro inside CallStack.invoked_nil rfl chain
  apply (exact x).mpr
  apply shadow.first regular.shape back first real
  exact fun hit => unhit ((exact Symbol.invalid).mpr hit)

/-- If a transition has an answer, there is a lookahead under all callers that fit its rule, and all symbols of that, except
for the end of the input, are in the answer. -/
def CoversCallers (net : Network) (asked : Workspace) (t : Transition) (answer : Option RangeSet) : Prop :=
  ∀ shown ∈ answer, ∀ links : List Int, net.CallChain (net.state t.target).rule links →
    ∃ next, (look (some t.target) none (.rooted links)).runOn asked = (.ok next, asked) ∧
      ∀ x ∈ next, x ≠ Symbol.endOfInput → x ∈ shown

/-- Once a builder has finished a network of rules with success, which invoked rules by itself alone, every decision is
answered, with one answer for each transition, and the answers cover what comes next under callers. -/
theorem alternatives_cover_callers
    (work : Workspace) (finished : Finished false work) (ruled : work.net.Ruled)
    (labelled : work.net.Labelled fun r => r.start ≤ r.stop) (guarded : work.net.GuardedRules) (acts : List Act) (d : StateId)
    (listed : d ∈ work.net.listed) :
    ∃ found later, (alternatives (some d)).runOn (Act.runAll acts work) = (.ok (some found), later) ∧
      List.Forall₂ (CoversCallers work.net (Act.runAll acts work)) (work.net.state d).transitions found := by
  have assembled := finished.assembled
  have regular := regular_of_ruled assembled finished.returning finished.verified ruled labelled guarded
  -- The search runs on the network that was asked, the paths are read off the one that was recast by its tables.
  have same := work.net.sameGraph_recast work.net.registers
  have back := same.leadsBack (leadsBack_of_ruled assembled finished.returning ruled)
  have navigable := assembled.navigable finished.verified
  have fills := Act.fills_runAll work finished.truthful acts
  generalize Act.runAll acts work = asked at fills
  have evaluation := alternativesFrom_runOn (asked.net.state d) asked 0 (asked.net.state d).transitions
  have transitions : (asked.net.state d).transitions = (work.net.state d).transitions := fills.same.transitions d
  obtain ⟨found, later, ok⟩ := evaluation.outcome navigable ⟨finished.truthful, fills⟩ fun t member =>
    navigable.targets d listed t (transitions ▸ member)
  have each := evaluation.answered (congrArg Prod.fst ok)
  rw [transitions] at each
  have placed : ∀ t ∈ (work.net.state d).transitions,
      Network.WellFormed.Inside (work.net.recast work.net.registers) t.target := fun t member =>
    regular.shape.targets d listed t (by rwa [same.transitions])
  refine ⟨found, later, runOn_alternatives_of_ok ok, ?_⟩
  refine ((List.forall₂_and_left _ _).mpr ⟨placed, each⟩).imp fun t answer ⟨inside, alternative⟩ => ?_
  rintro shown rfl links chain
  obtain ⟨shownOk, unhit⟩ := alternative.lookahead_eq
  have cast := same.callChain chain
  rw [← same.rule] at cast
  rw [fills.same.lookahead, ← same.lookahead] at shownOk
  obtain ⟨next, nextOk, _, exact⟩ :=
    regular.exists_lookahead admits_upright {} inside.1 cast.invoking
  refine ⟨next, ?_, fun x member real => ?_⟩
  · rw [runOn_look, fills.same.lookahead, ← same.lookahead, nextOk]
  · exact mem_alternative_of_first regular back inside shownOk unhit cast ((exact x).mp member) real

/-- The steps that build `s : e 3 ;` and `e : 1 (2 | ) ;`. -/
def optionSteps : List Step :=
  [.rule 0, .rule 0, .add .basic 0, .add .basic 0, .add .basic 1, .block 1 .basicBlockStart, .add .basic 1,
    .draw (some 0) (some 4) (.epsilon (-1)), .invoke (some 4) 1 (some 5) 0, .draw (some 5) (some 1) (.atom 3),
    .draw (some 2) (some 6) (.epsilon (-1)), .draw (some 6) (some 7) (.atom 1), .draw (some 7) (some 9) (.epsilon (-1)),
    .draw (some 9) (some 8) (.atom 2), .draw (some 7) (some 8) (.epsilon (-1)), .draw (some 8) (some 3) (.epsilon (-1))]

def optionNetwork : Workspace := ((build true).runOn (runAll optionSteps (begun .parser 3 false))).2

/-- All that is computed of the network, at once. -/
theorem checked_optionNetwork :
    (AllOffered false optionSteps (begun .parser 3 false) ∧
      ((build true).runOn (runAll optionSteps (begun .parser 3 false))).1 = .ok ()) ∧
    optionNetwork.net.Ruled ∧ (optionNetwork.net.Labelled fun r => r.start ≤ r.stop) ∧
    (optionNetwork.net.Unstopped [0, 2, 4, 6] ∧
      ∀ entry ∈ optionNetwork.net.ruleStarts, ∀ start ∈ entry, start ∈ [0, 2, 4, 6]) ∧
    (optionNetwork.net.slot? 4 = some 4 ∧ ⟨2, .rule 1 0 (some 5)⟩ ∈ (optionNetwork.net.state 4).transitions ∧
      (optionNetwork.net.state 2).rule = 1) ∧
    7 ∈ optionNetwork.net.listed := by
  decide +kernel

theorem finished_optionNetwork : Finished false optionNetwork :=
  .of_checked .parser 3 false optionSteps checked_optionNetwork.1

theorem guardedRules_optionNetwork : optionNetwork.net.GuardedRules := by
  obtain ⟨_, _, _, ⟨unstopped, starts⟩, _⟩ := checked_optionNetwork
  exact unstopped.guardedRules starts

/-- What the searches from the two ways on after 1 come to, configuration by configuration. -/
theorem expanded_optionNetwork :
    (optionNetwork.net.state 7).transitions = [⟨9, .epsilon (-1)⟩, ⟨8, .epsilon (-1)⟩] ∧
    Search.expand optionNetwork.net .deciding 9 ⟨some 9, .root, []⟩ = .ok [.consume (.atom 2 (.single 2))] ∧
    Search.expand optionNetwork.net .deciding 8 ⟨some 8, .root, []⟩ = .ok [.visit ⟨some 3, .root, []⟩] ∧
    Search.expand optionNetwork.net .deciding 3 ⟨some 3, .root, []⟩ = .ok [.visit ⟨some 5, .root, []⟩] ∧
    Search.expand optionNetwork.net .deciding 5 ⟨some 5, .root, []⟩ = .ok [.consume (.atom 3 (.single 3))] ∧
    (optionNetwork.net.state 8).number = 8 ∧ (optionNetwork.net.state 3).number = 3 ∧
      (optionNetwork.net.state 5).number = 5 := by
  decide +kernel

/-- The search that ends `e` goes on along the transition of its stop, and so returns to `s`. -/
theorem outcome_alternatives_option :
    ((alternatives (some 7)).runOn optionNetwork).1 =
      .ok (some [some ⟨some [⟨2, 3⟩], false⟩, some ⟨some [⟨3, 4⟩], false⟩]) := by
  obtain ⟨drawn, entered, ended, returned, followed, eight, three, five⟩ := expanded_optionNetwork
  have insideEnds :
      Search.Ends optionNetwork.net .deciding (Search.start (some 9) .root) (.ok ⟨some [⟨2, 3⟩], false⟩) 2 :=
    .step rfl (Search.perform_visit_of_not_mem rfl (by simp [Search.start]) entered)
      (.step rfl (Search.perform_consume_of_ok rfl) (.done rfl))
  have outsideEnds :
      Search.Ends optionNetwork.net .deciding (Search.start (some 8) .root) (.ok ⟨some [⟨3, 4⟩], false⟩) 4 :=
    .step rfl (Search.perform_visit_of_not_mem rfl (by simp [Search.start]) ended)
      (.step rfl (Search.perform_visit_of_not_mem rfl (by simp [Search.start, eight, three]) returned)
        (.step rfl (Search.perform_visit_of_not_mem rfl (by simp [Search.start, eight, three, five]) followed)
          (.step rfl (Search.perform_consume_of_ok rfl) (.done rfl))))
  have answered : ∀ t ∈ (optionNetwork.net.state 7).transitions, alternative optionNetwork.net t =
      .ok (if t.target = 9 then some ⟨some [⟨2, 3⟩], false⟩ else some ⟨some [⟨3, 4⟩], false⟩) := by
    rw [drawn, List.forall_mem_cons, List.forall_mem_singleton]
    exact ⟨alternative_of_ok (t := ⟨9, .epsilon (-1)⟩) insideEnds.lookahead_eq,
      alternative_of_ok (t := ⟨8, .epsilon (-1)⟩) outsideEnds.lookahead_eq⟩
  rw [outcome_alternatives answered, drawn]
  rfl

/-- Whether `e` goes on with 2 or ends, the lookahead of the decision covers what comes next within `s`. -/
theorem alternatives_cover_callers_option :
    (optionNetwork.net.Labelled fun r => r.start ≤ r.stop) ∧ optionNetwork.net.CallChain 1 [4] ∧
      ∃ later, (alternatives (some 7)).runOn optionNetwork =
          (.ok (some [some ⟨some [⟨2, 3⟩], false⟩, some ⟨some [⟨3, 4⟩], false⟩]), later) ∧
        List.Forall₂ (CoversCallers optionNetwork.net optionNetwork) (optionNetwork.net.state 7).transitions
          [some ⟨some [⟨2, 3⟩], false⟩, some ⟨some [⟨3, 4⟩], false⟩] := by
  obtain ⟨_, ruled, labelled, _, ⟨invoker, invokes, calls⟩, listed⟩ := checked_optionNetwork
  obtain ⟨found, later, ok, covers⟩ := alternatives_cover_callers optionNetwork finished_optionNetwork ruled labelled
    guardedRules_optionNetwork [] 7 listed
  have answers : Except.ok (some found) = _ := (congrArg Prod.fst ok).symm.trans outcome_alternatives_option
  obtain rfl := Option.some.inj (Except.ok.inj answers)
  exact ⟨labelled, .cons invoker invokes rfl calls .nil, later, ok, covers⟩

end Covering

end Lookahead

end GrammarNet
