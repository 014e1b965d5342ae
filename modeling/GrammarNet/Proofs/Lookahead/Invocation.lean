import Mathlib.Data.List.Chain
import GrammarNet.Proofs.Lookahead.Analyses
import GrammarNet.Proofs.RangeSet.Complement
import GrammarNet.Proofs.Search.Invoking

/-!
# The lookahead of an invocation

What can come next from a state that invokes a rule is what can come next from the start of the rule and, if the rule can
end, from the state where the invoking rule goes on.
-/

namespace GrammarNet

/-- Only a label that holds the mark of the end of a rule lets a transition yield it. -/
theorem TransitionKind.not_yields_epsilon
    {kind : TransitionKind} {greatest : Symbol} (plain : ∀ label ∈ kind.label?, Symbol.epsilon ∉ label.set) :
    ¬ kind.Yields greatest Symbol.epsilon := by
  intro yields
  cases kind with
  | atom | range | set => exact plain _ rfl yields
  | notSet label =>
      obtain ⟨_, rest, complement, member⟩ := yields
      exact absurd (RangeSet.le_of_mem_complement complement member) (by decide)
  | wildcard => exact absurd yields.1 (by decide)
  | plain | abstractPredicate | epsilon | rule | predicate | precedence | action => exact yields.elim

namespace Network

/-- The states of the network keep to their rules: no invocation enters a rule at a stop, the invoking rule goes on in a
state of its own, and other transitions stay in a rule unless they leave its stop. -/
structure Confined (net : Network) : Prop where
  entries : ∀ id ∈ net.listed, ∀ t ∈ (net.state id).transitions, t.isRule = true →
    (net.state t.target).kind ≠ .ruleStop
  follows : ∀ id ∈ net.listed, ∀ t ∈ (net.state id).transitions, ∀ next ∈ t.kind.follow?,
    (net.state next).rule = (net.state id).rule
  within : ∀ id ∈ net.listed, (net.state id).kind ≠ .ruleStop → ∀ t ∈ (net.state id).transitions, t.isRule = false →
    (net.state t.target).rule = (net.state id).rule

theorem confined_iff (net : Network) :
    net.Confined ↔
      (∀ id ∈ net.listed, ∀ t ∈ (net.state id).transitions, t.isRule = true → (net.state t.target).kind ≠ .ruleStop) ∧
      (∀ id ∈ net.listed, ∀ t ∈ (net.state id).transitions, ∀ next ∈ t.kind.follow?,
        (net.state next).rule = (net.state id).rule) ∧
      ∀ id ∈ net.listed, (net.state id).kind ≠ .ruleStop → ∀ t ∈ (net.state id).transitions, t.isRule = false →
        (net.state t.target).rule = (net.state id).rule :=
  ⟨fun confined => ⟨confined.entries, confined.follows, confined.within⟩,
    fun ⟨entries, follows, within⟩ => ⟨entries, follows, within⟩⟩

instance (net : Network) : Decidable net.Confined := decidable_of_iff _ net.confined_iff.symm

/-- The labels of the network hold no mark of the end of a rule. -/
def Unmarked (net : Network) : Prop :=
  ∀ id ∈ net.listed, ∀ t ∈ (net.state id).transitions, ∀ label ∈ t.kind.label?, Symbol.epsilon ∉ label.set

instance (net : Network) : Decidable net.Unmarked :=
  inferInstanceAs (Decidable (∀ id ∈ net.listed, ∀ t ∈ (net.state id).transitions, ∀ label ∈ t.kind.label?,
    Symbol.epsilon ∉ label.set))

section Invocation

variable {net : Network} {id follow : StateId} {t : Transition}

theorem Unmarked.search (unmarked : net.Unmarked) : Search.Unmarked net :=
  fun id listed t member => TransitionKind.not_yields_epsilon (unmarked id listed t member)

/-- If it does not matter which states start a rule, then all but the stops may do so. -/
theorem Navigable.wellFormed_of_confined
    (navigable : net.Navigable) (made : ∀ id ∈ net.listed, id < net.store.size) (confined : net.Confined) :
    (net.recast fun _ => true).WellFormed := by
  apply navigable.wellFormed_recast made
  · exact fun id listed t member invokes => ⟨confined.entries id listed t member invokes, rfl⟩
  · exact fun _ _ _ _ => ⟨fun _ => rfl, fun _ _ _ => rfl⟩
  · exact confined.follows
  · exact fun id listed goesOn _ => confined.within id listed goesOn

/-- What is found for an invocation, told by what is found for the start of the rule and for where the invoking rule goes
on. -/
theorem Navigable.exists_lookahead_invocation
    (navigable : net.Navigable) (made : ∀ id ∈ net.listed, id < net.store.size) (confined : net.Confined)
    (labelled : net.Labelled fun r => r.start ≤ r.stop) (unmarked : net.Unmarked) (listed : id ∈ net.listed)
    (goesOn : (net.state id).kind ≠ .ruleStop) (member : t ∈ (net.state id).transitions)
    (continues : t.kind.follow? = some follow) (regular : net.RegularAt t.target) :
    ∃ here within beyond, net.lookahead {} (some id) .unknown = .ok here ∧
      net.lookahead {} (some t.target) .unknown = .ok within ∧ net.lookahead {} (some follow) .unknown = .ok beyond ∧
        ∀ x, x ∈ here ↔ (x ∈ within ∧ x ≠ Symbol.epsilon) ∨ (Symbol.epsilon ∈ within ∧ x ∈ beyond) := by
  -- Which states start a rule does not show in a search, so they may be cast as the shape needs them.
  have shape := navigable.wellFormed_of_confined made confined
  have same := net.sameGraph_recast fun _ => true
  simp only [← same.lookahead]
  have regular := same.samePaths.regularAt regular
  have invokes := isRule_of_follow? continues
  have inState : t ∈ ((net.recast fun _ => true).state id).transitions := (same.transitions id).symm ▸ member
  have proceeds : ((net.recast fun _ => true).state id).isRuleStop = false := by
    rw [same.isRuleStop]
    exact beq_eq_false_iff_ne.mpr goesOn
  have sameLabels := same.samePaths.labelled labelled
  have noMark : Search.Unmarked (net.recast fun _ => true) := by
    apply Unmarked.search
    intro id listed t member
    rw [same.transitions] at member
    exact unmarked id listed t member
  have castListed : id ∈ (net.recast fun _ => true).listed := same.listed ▸ listed
  generalize net.recast (fun _ => true) = cast at *
  have returns : cast.ReturnsTo (cast.state id).number follow :=
    ⟨id, shape.numbered id castListed, t, inState, continues⟩
  obtain ⟨nextListed, _⟩ := shape.returnsTo returns
  obtain ⟨here, hereOk, hereShows⟩ := Search.exists_lookahead_shows {} shape admits_upright sameLabels castListed
  obtain ⟨within, withinOk, withinShows⟩ :=
    Search.exists_lookahead_shows {} shape admits_upright sameLabels (shape.targets id castListed t inState).1
  obtain ⟨beyond, beyondOk, beyondShows⟩ :=
    Search.exists_lookahead_shows {} shape admits_upright sameLabels nextListed
  refine ⟨here, within, beyond, hereOk, withinOk, beyondOk, fun x => ?_⟩
  rw [hereShows, withinShows, withinShows, beyondShows,
    Search.shows_invoking_iff shape castListed proceeds inState invokes]
  exact Search.shows_invoked_iff shape noMark (shape.targets id castListed t inState) regular
    (shape.nonneg_number castListed) returns

end Invocation

end Network

namespace Lookahead

open Construction NetM

section Invocation

variable {work : Workspace} {id : StateId}

/-- What can come next within the rule of a state is what the network had to offer for it before anything was asked. -/
theorem runOn_next_of_ok
    {found : RangeSet} (truthful : work.net.Truthful) (acts : List Act)
    (ok : work.net.lookahead {} (some id) .unknown = .ok found) :
    ∃ later, (next (some id) .unknown).runOn (Act.runAll acts work) = (.ok found.freeze, later) := by
  have fills := Act.fills_runAll work truthful acts
  have within := withinRule_runOn (Act.runAll acts work) (some id)
  have outcome := within.outcome_eq (fills.truthful truthful)
  rw [fills.same.lookahead, ok] at outcome
  exact ⟨_, Prod.ext outcome rfl⟩

/-- Once a builder has finished a network whose states keep to their rules, and whose labels hold no mark and nothing
inverted: what can come next from a state that invokes a rule is what can come next from the start of the rule, and what
can come next where the invoking rule goes on if the rule can end. The rule must match something if it can come back to
itself, and then all its invocations must enter it at this start. -/
theorem next_of_invocation
    (work : Workspace) (finished : Finished true work) (confined : work.net.Confined)
    (labelled : work.net.Labelled fun r => r.start ≤ r.stop) (unmarked : work.net.Unmarked) (acts : List Act)
    (id : StateId) (listed : id ∈ work.net.listed) (goesOn : (work.net.state id).kind ≠ .ruleStop) (t : Transition)
    (member : t ∈ (work.net.state id).transitions) (follow : StateId) (continues : t.kind.follow? = some follow)
    (regular : work.net.RegularAt t.target) :
    ∃ here within beyond,
      (∃ later, (next (some id) .unknown).runOn (Act.runAll acts work) = (.ok here, later)) ∧
      (∃ later, (next (some t.target) .unknown).runOn (Act.runAll acts work) = (.ok within, later)) ∧
      (∃ later, (next (some follow) .unknown).runOn (Act.runAll acts work) = (.ok beyond, later)) ∧
      ∀ x, x ∈ here ↔ (x ∈ within ∧ x ≠ Symbol.epsilon) ∨ (Symbol.epsilon ∈ within ∧ x ∈ beyond) := by
  have assembled := finished.assembled
  have navigable := assembled.navigable finished.verified
  have made : ∀ id ∈ work.net.listed, id < work.net.store.size := fun id => assembled.mem_listed_iff.mp
  obtain ⟨here, within, beyond, hereOk, withinOk, beyondOk, composes⟩ :=
    navigable.exists_lookahead_invocation made confined labelled unmarked listed goesOn member continues regular
  refine ⟨here.freeze, within.freeze, beyond.freeze, runOn_next_of_ok finished.truthful acts hereOk,
    runOn_next_of_ok finished.truthful acts withinOk, runOn_next_of_ok finished.truthful acts beyondOk, fun x => ?_⟩
  rw [RangeSet.mem_freeze, RangeSet.mem_freeze, RangeSet.mem_freeze, RangeSet.mem_freeze]
  exact composes x

/-- The steps that build `s : e 3 ;` and `e : e 1 | 2 ;`. -/
def recursionSteps : List Step :=
  [.rule 0, .rule 0, .block 1 .basicBlockStart, .add .basic 1, .add .basic 1, .add .basic 1, .add .basic 0, .add .basic 0,
    .draw (some 2) (some 4) (.epsilon (-1)), .draw (some 4) (some 6) (.epsilon (-1)), .invoke (some 6) 1 (some 7) 0,
    .draw (some 7) (some 5) (.atom 1), .draw (some 4) (some 8) (.epsilon (-1)), .draw (some 8) (some 5) (.atom 2),
    .draw (some 5) (some 3) (.epsilon (-1)), .draw (some 0) (some 9) (.epsilon (-1)), .invoke (some 9) 1 (some 10) 0,
    .draw (some 10) (some 1) (.atom 3)]

def recursionNetwork : Workspace := ((build true).runOn (runAll recursionSteps (begun .parser 3 false))).2

/-- All that is computed of the network, at once. -/
theorem checked_recursionNetwork :
    (AllOffered true recursionSteps (begun .parser 3 false) ∧
      ((build true).runOn (runAll recursionSteps (begun .parser 3 false))).1 = .ok ()) ∧
    recursionNetwork.net.Confined ∧
    ((recursionNetwork.net.Labelled fun r => r.start ≤ r.stop) ∧ recursionNetwork.net.Unmarked) ∧
    (∀ id ∈ recursionNetwork.net.listed, ∀ t ∈ (recursionNetwork.net.state id).transitions, t.isRule = true →
      (recursionNetwork.net.state t.target).rule = (recursionNetwork.net.state 2).rule → t.target = 2) ∧
    recursionNetwork.net.Unstopped [2, 4, 6, 8] ∧
    9 ∈ recursionNetwork.net.listed ∧ (recursionNetwork.net.state 9).kind ≠ .ruleStop ∧
      ⟨2, .rule 1 0 (some 10)⟩ ∈ (recursionNetwork.net.state 9).transitions := by
  decide +kernel

theorem finished_recursionNetwork : Finished true recursionNetwork :=
  .of_checked .parser 3 false recursionSteps checked_recursionNetwork.1

/-- The rule `e` comes back to itself, always at its start, and matches something. -/
theorem regularAt_recursionNetwork : recursionNetwork.net.RegularAt 2 := by
  obtain ⟨_, _, _, single, unstopped, _⟩ := checked_recursionNetwork
  exact ⟨fun _ => single, fun both => unstopped.not_canEnd List.mem_cons_self both.2⟩

/-- What can come next where `s` invokes `e` is what can come next at the start of `e`. -/
theorem next_of_invocation_recursion :
    (recursionNetwork.net.Labelled fun r => r.start ≤ r.stop) ∧ ∃ here within beyond,
      (∃ later, (next (some 9) .unknown).runOn (Act.runAll [.ask (.withinRule (some 2))] recursionNetwork) =
        (.ok here, later)) ∧
      (∃ later, (next (some 2) .unknown).runOn (Act.runAll [.ask (.withinRule (some 2))] recursionNetwork) =
        (.ok within, later)) ∧
      (∃ later, (next (some 10) .unknown).runOn (Act.runAll [.ask (.withinRule (some 2))] recursionNetwork) =
        (.ok beyond, later)) ∧
      ∀ x, x ∈ here ↔ (x ∈ within ∧ x ≠ Symbol.epsilon) ∨ (Symbol.epsilon ∈ within ∧ x ∈ beyond) := by
  obtain ⟨_, confined, ⟨labelled, unmarked⟩, _, _, listed, goesOn, invokes⟩ := checked_recursionNetwork
  exact ⟨labelled, next_of_invocation recursionNetwork finished_recursionNetwork confined labelled unmarked
    [.ask (.withinRule (some 2))] 9 listed goesOn _ invokes 10 rfl regularAt_recursionNetwork⟩

/-- The steps that build `s : e 2 ;` and `e : e 1 | ;`. -/
def nullableSteps : List Step :=
  [.rule 0, .rule 0, .block 0 .basicBlockStart, .add .basic 0, .add .basic 0, .add .basic 1, .add .basic 1,
    .draw (some 0) (some 4) (.epsilon (-1)), .draw (some 4) (some 6) (.epsilon (-1)), .invoke (some 6) 0 (some 7) 0,
    .draw (some 7) (some 5) (.atom 1), .draw (some 4) (some 5) (.epsilon (-1)), .draw (some 5) (some 1) (.epsilon (-1)),
    .draw (some 2) (some 8) (.epsilon (-1)), .invoke (some 8) 0 (some 9) 0, .draw (some 9) (some 3) (.atom 2)]

def nullableNetwork : Workspace := ((build true).runOn (runAll nullableSteps (begun .parser 2 false))).2

/-- All that is computed of the network, at once. Along the first list of configurations, `e` comes back to itself, ends
there, and goes on with 1; the second one has all that the search comes to from `s`. -/
theorem checked_nullableNetwork :
    (∀ direct, AllOffered direct nullableSteps (begun .parser 2 false) ∧
      ((build true).runOn (runAll nullableSteps (begun .parser 2 false))).1 = .ok ()) ∧
    nullableNetwork.net.Confined ∧ nullableNetwork.net.WellFormed ∧
    ((nullableNetwork.net.Labelled fun r => r.start ≤ r.stop) ∧ nullableNetwork.net.Unmarked) ∧
    (List.IsChain (Search.Calls nullableNetwork.net {})
        [⟨some 0, [], []⟩, ⟨some 4, [], []⟩, ⟨some 6, [], []⟩, ⟨some 0, [6], [0]⟩, ⟨some 4, [6], [0]⟩, ⟨some 5, [6], [0]⟩,
          ⟨some 1, [6], [0]⟩, ⟨some 7, [], []⟩] ∧
      (nullableNetwork.net.state 7).isRuleStop = false ∧
        ⟨5, .atom 1 (.single 1)⟩ ∈ (nullableNetwork.net.state 7).transitions) ∧
    Search.Encloses nullableNetwork.net
      [⟨some 8, [], []⟩, ⟨some 0, [8], [0]⟩, ⟨some 4, [8], [0]⟩, ⟨some 6, [8], [0]⟩, ⟨some 5, [8], [0]⟩, ⟨some 1, [8], [0]⟩,
        ⟨some 9, [], []⟩] 1 ∧
    (0 ∈ nullableNetwork.net.listed ∧ (nullableNetwork.net.state 0).kind ≠ .tokensStart) ∧
    (8 ∈ nullableNetwork.net.listed ∧ (nullableNetwork.net.state 8).kind ≠ .tokensStart) ∧
    (nullableNetwork.net.state 8).kind ≠ .ruleStop ∧
      ⟨0, .rule 0 0 (some 9)⟩ ∈ (nullableNetwork.net.state 8).transitions := by
  decide +kernel

theorem finished_nullableNetwork {direct : Bool} : Finished direct nullableNetwork :=
  .of_checked .parser 2 false nullableSteps (checked_nullableNetwork.1 direct)

theorem shows_nullableNetwork : Search.Shows nullableNetwork.net {} ⟨some 0, [], []⟩ 1 := by
  obtain ⟨_, _, _, _, ⟨chain, goesOn, member⟩, _⟩ := checked_nullableNetwork
  have path : Search.Calling nullableNetwork.net {} ⟨some 0, [], []⟩ ⟨some 7, [], []⟩ :=
    List.relationReflTransGen_of_exists_isChain_cons _ chain rfl
  have shown : nullableNetwork.net.Emits {} ⟨7, []⟩ 1 :=
    .consume (Network.passable_iff.mpr goesOn) member (by decide : (1 : Symbol) ∈ RangeSet.singleton 1)
  exact ⟨_, path, 7, rfl, shown⟩

/-- From `s`, the rule `e` has been entered, and is not entered again. -/
theorem not_shows_nullableNetwork : ¬ Search.Shows nullableNetwork.net {} ⟨some 8, [], []⟩ 1 := by
  obtain ⟨_, _, _, _, _, encloses, _⟩ := checked_nullableNetwork
  exact encloses.not_shows List.mem_cons_self

/-- If a rule can come back to itself and also match nothing, then a symbol that can come next at its start may be
missing where the rule is invoked. -/
theorem next_not_of_invocation_with_nullable_recursion :
    ¬ ∀ (work : Workspace) (id : StateId) (t : Transition) (follow : StateId), Finished false work → work.net.Confined →
      (work.net.Labelled fun r => r.start ≤ r.stop) → work.net.Unmarked → id ∈ work.net.listed →
        (work.net.state id).kind ≠ .ruleStop → t ∈ (work.net.state id).transitions → t.kind.follow? = some follow →
          ∃ here within beyond,
            (∃ later, (next (some id) .unknown).runOn work = (.ok here, later)) ∧
            (∃ later, (next (some t.target) .unknown).runOn work = (.ok within, later)) ∧
            (∃ later, (next (some follow) .unknown).runOn work = (.ok beyond, later)) ∧
            ∀ x, x ∈ here ↔ (x ∈ within ∧ x ≠ Symbol.epsilon) ∨ (Symbol.epsilon ∈ within ∧ x ∈ beyond) := by
  intro claim
  obtain ⟨_, confined, shape, ⟨labelled, unmarked⟩, _, _, insideRule, inside, goesOn, invokes⟩ := checked_nullableNetwork
  obtain ⟨here, within, _, ⟨_, hereRun⟩, ⟨_, withinRun⟩, _, composes⟩ :=
    claim nullableNetwork 8 _ 9 finished_nullableNetwork confined labelled unmarked inside.1 goesOn invokes rfl
  have truthful := (@finished_nullableNetwork false).truthful
  have found : ∀ {id : StateId} {answer : RangeSet} {later : Workspace},
      Network.WellFormed.Inside nullableNetwork.net id →
        (next (some id) .unknown).runOn nullableNetwork = (.ok answer, later) →
          (1 ∈ answer ↔ Search.Shows nullableNetwork.net {} ⟨some id, [], []⟩ 1) := by
    intro id answer later inside run
    obtain ⟨set, ok, shows⟩ := Search.exists_lookahead_shows {} shape admits_upright labelled inside.1
    have again : ∃ last, (next (some id) .unknown).runOn nullableNetwork = (.ok set.freeze, last) :=
      runOn_next_of_ok truthful [] ok
    obtain ⟨_, alsoRun⟩ := again
    rw [run] at alsoRun
    injection alsoRun with same _
    obtain rfl := Except.ok.inj same
    rw [RangeSet.mem_freeze, shows]
  have shown : 1 ∈ within := (found insideRule withinRun).mpr shows_nullableNetwork
  have missing : 1 ∈ here := (composes 1).mpr (Or.inl ⟨shown, by decide⟩)
  exact not_shows_nullableNetwork ((found inside hereRun).mp missing)

end Invocation

end Lookahead

end GrammarNet
