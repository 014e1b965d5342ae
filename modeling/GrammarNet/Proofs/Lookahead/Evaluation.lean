import GrammarNet.Lookahead
import GrammarNet.Proofs.Search.Growth
import GrammarNet.Proofs.Workspace.Runs

/-!
# How queries are answered

The evaluation of each lookahead query as a finite derivation, down to the searches that it makes. None of these
relations has a rule for an evaluation that goes on forever, and every query has a derivation on every workspace.
-/

namespace GrammarNet

namespace Lookahead

open NetM

/-! ## Derivations -/

/-- The search from a state under a chain comes to an end with `outcome`. -/
def Searches (net : Network) (mode : SearchMode) (state : Option StateId) (stack : CallStack)
    (outcome : Except Fault RangeSet) : Prop :=
  ∃ steps, Search.Ends net mode (Search.start state stack) outcome steps

/-- The workspace after `next` was kept with a state. -/
def keep (work : Workspace) (id : StateId) (next : RangeSet) : Workspace where
  net := work.net.modify id fun s => { s with withinRule := some next }
  log := work.log ++ [.withinRule (work.net.state id).rule (work.net.state id).number next]

/-- What can come next within a rule: it was known, or a search finds it. -/
inductive WithinRule (work : Workspace) : Option StateId → Except Fault RangeSet × Workspace → Prop
  | nowhere : WithinRule work none (.error .noState, work)
  | known {id : StateId} {known : RangeSet} (kept : (work.net.state id).withinRule = some known) :
      WithinRule work (some id) (.ok known, work)
  | failed {id : StateId} {fault : Fault} (unknown : (work.net.state id).withinRule = none)
      (searches : Searches work.net {} (some id) .unknown (.error fault)) :
      WithinRule work (some id) (.error fault, work)
  | found {id : StateId} {found : RangeSet} (unknown : (work.net.state id).withinRule = none)
      (searches : Searches work.net {} (some id) .unknown (.ok found)) :
      WithinRule work (some id) (.ok found.freeze, keep work id found.freeze)

/-- What can come next along a chain of invocations, added to what was found before. -/
inductive ExpectedBeyond :
    Workspace → List Int → RangeSet → Except Fault RangeSet × Workspace → Prop
  | exhausted {work : Workspace} {found : RangeSet} :
      ExpectedBeyond work [] found (.ok (found.insert Symbol.endOfInput), work)
  | unreturned {work : Workspace} {link : Int} {outer : List Int} {found : RangeSet} {fault : Fault}
      (followed : work.net.followState link = .error fault) :
      ExpectedBeyond work (link :: outer) found (.error fault, work)
  | refused {work later : Workspace} {link : Int} {outer : List Int} {found : RangeSet} {fault : Fault}
      {next : Option StateId} (followed : work.net.followState link = .ok next)
      (within : WithinRule work next (.error fault, later)) :
      ExpectedBeyond work (link :: outer) found (.error fault, later)
  | settled {work later : Workspace} {link : Int} {outer : List Int} {found following : RangeSet}
      {next : Option StateId} (followed : work.net.followState link = .ok next)
      (within : WithinRule work next (.ok following, later)) (goesOn : Symbol.epsilon ∉ following) :
      ExpectedBeyond work (link :: outer) found (.ok ((found.union following).erase Symbol.epsilon), later)
  | further {work later : Workspace} {link : Int} {outer : List Int} {found following : RangeSet}
      {next : Option StateId} {outcome : Except Fault RangeSet × Workspace}
      (followed : work.net.followState link = .ok next) (within : WithinRule work next (.ok following, later))
      (canEnd : Symbol.epsilon ∈ following)
      (beyond : ExpectedBeyond later outer ((found.union following).erase Symbol.epsilon) outcome) :
      ExpectedBeyond work (link :: outer) found outcome

/-- The symbols that can follow a state under a chain of callers. -/
inductive Expected (work : Workspace) (number : Int) (stack : CallStack) :
    Except Fault RangeSet × Workspace → Prop
  | unlisted (absent : work.net.slot? number = none) :
      Expected work number stack (.error (.invalidStateNumber number work.net.slots.size), work)
  | refused {id : StateId} {fault : Fault} {later : Workspace} (listed : work.net.slot? number = some id)
      (within : WithinRule work (some id) (.error fault, later)) :
      Expected work number stack (.error fault, later)
  | settled {id : StateId} {following : RangeSet} {later : Workspace} (listed : work.net.slot? number = some id)
      (within : WithinRule work (some id) (.ok following, later)) (goesOn : Symbol.epsilon ∉ following) :
      Expected work number stack (.ok following, later)
  | further {id : StateId} {following : RangeSet} {later : Workspace} {outcome : Except Fault RangeSet × Workspace}
      (listed : work.net.slot? number = some id) (within : WithinRule work (some id) (.ok following, later))
      (canEnd : Symbol.epsilon ∈ following)
      (beyond : ExpectedBeyond later stack.links ((RangeSet.empty.union following).erase Symbol.epsilon) outcome) :
      Expected work number stack outcome

/-- What can come next after a transition, without a predicate before it. -/
inductive Alternative (net : Network) (t : Transition) : Except Fault (Option RangeSet) → Prop
  | failed {fault : Fault}
      (searches : Searches net { throughPredicates := false, marksEnd := false } (some t.target) .root (.error fault)) :
      Alternative net t (.error fault)
  | unanswered {found : RangeSet}
      (searches : Searches net { throughPredicates := false, marksEnd := false } (some t.target) .root (.ok found))
      (useless : found.ranges? = none ∨ Symbol.invalid ∈ found) : Alternative net t (.ok none)
  | answered {found : RangeSet}
      (searches : Searches net { throughPredicates := false, marksEnd := false } (some t.target) .root (.ok found))
      (useful : ¬ (found.ranges? = none ∨ Symbol.invalid ∈ found)) : Alternative net t (.ok (some found))

/-- The answers for the transitions of a state from an index on, each of which is logged. -/
inductive AlternativesFrom (s : State) :
    Workspace → Nat → List Transition → Except Fault (List (Option RangeSet)) × Workspace → Prop
  | done {work : Workspace} {index : Nat} : AlternativesFrom s work index [] (.ok [], work)
  | failed {work : Workspace} {index : Nat} {t : Transition} {rest : List Transition} {fault : Fault}
      (alternative : Alternative work.net t (.error fault)) :
      AlternativesFrom s work index (t :: rest) (.error fault, work)
  | next {work later : Workspace} {index : Nat} {t : Transition} {rest : List Transition} {found : Option RangeSet}
      {outcome : Except Fault (List (Option RangeSet))} (alternative : Alternative work.net t (.ok found))
      (others : AlternativesFrom s { work with log := work.log ++ [.alternative index s.number found] } (index + 1)
        rest (outcome, later)) :
      AlternativesFrom s work index (t :: rest) (outcome.map (found :: ·), later)

/-- The answer to a query. -/
inductive Answers (work : Workspace) : Query → Except Fault Answer × Workspace → Prop
  | withinRule {state : Option StateId} {outcome : Except Fault RangeSet} {later : Workspace}
      (within : WithinRule work state (outcome, later)) :
      Answers work (.withinRule state) (outcome.map .set, later)
  | nextWithin {state : Option StateId} {callers : Callers} {outcome : Except Fault RangeSet} {later : Workspace}
      (alone : callers.stack = .unknown ∨ callers.stack.atRoot = true)
      (within : WithinRule work state (outcome, later)) :
      Answers work (.next state callers) (outcome.map .set, later)
  | nextAlong {state : Option StateId} {callers : Callers} {outcome : Except Fault RangeSet}
      (called : ¬ (callers.stack = .unknown ∨ callers.stack.atRoot = true))
      (searches : Searches work.net {} state callers.stack outcome) :
      Answers work (.next state callers) (outcome.map .set, work)
  | look {state stop : Option StateId} {callers : Callers} {outcome : Except Fault RangeSet}
      (searches : Searches work.net { stop := stop } state callers.stack outcome) :
      Answers work (.look state stop callers) (outcome.map .set, work)
  | expected {number : Int} {callers : Callers} {outcome : Except Fault RangeSet} {later : Workspace}
      (expected : Expected work number callers.stack (outcome, later)) :
      Answers work (.expected number callers) (outcome.map .set, later)
  | noAlternatives : Answers work (.alternatives none) (.ok (.alternatives none), work)
  | alternatives {id : StateId} {outcome : Except Fault (List (Option RangeSet))} {later : Workspace}
      (alternatives : AlternativesFrom (work.net.state id) work 0 (work.net.state id).transitions (outcome, later)) :
      Answers work (.alternatives (some id)) (outcome.map fun found => .alternatives (some found), later)

/-! ## Every query has a derivation -/

section Totality

theorem searches_lookahead (net : Network) (mode : SearchMode) (state : Option StateId) (stack : CallStack) :
    Searches net mode state stack (net.lookahead mode state stack) := by
  obtain ⟨steps, ends, _⟩ := Search.ends_lookahead net mode state stack
  exact ⟨steps, ends⟩

theorem Searches.lookahead_eq
    {net : Network} {mode : SearchMode} {state : Option StateId} {stack : CallStack}
    {outcome : Except Fault RangeSet} (searches : Searches net mode state stack outcome) :
    net.lookahead mode state stack = outcome := by
  obtain ⟨steps, ends⟩ := searches
  exact ends.lookahead_eq

theorem runOn_look (work : Workspace) (state stop : Option StateId) (stack : CallStack) :
    (look state stop stack).runOn work = (work.net.lookahead { stop := stop } state stack, work) := by
  simp only [look, runOn_bind, runOn_network, runOn_lift]

theorem withinRule_runOn (work : Workspace) (state : Option StateId) :
    WithinRule work state ((withinRule state).runOn work) := by
  cases state with
  | none => exact .nowhere
  | some id =>
      simp only [withinRule, required, runOn_bind, runOn_lift, runOn_network]
      cases kept : (work.net.state id).withinRule with
      | some known => exact .known kept
      | none =>
          have searches := searches_lookahead work.net {} (some id) .unknown
          simp only [runOn_bind, runOn_look]
          cases outcome : work.net.lookahead {} (some id) .unknown with
          | error fault =>
              rw [outcome] at searches
              exact .failed kept searches
          | ok found =>
              rw [outcome] at searches
              exact .found kept searches

/-- A search within a rule whose answer is not kept yet yields what it finds, which is kept from then on. -/
theorem runOn_withinRule_of_ends
    {work : Workspace} {id : StateId} {found : RangeSet} {steps : Nat}
    (unknown : (work.net.state id).withinRule = none)
    (ends : Search.Ends work.net {} (Search.start (some id) .unknown) (.ok found) steps) :
    (withinRule (some id)).runOn work = (.ok found.freeze, keep work id found.freeze) := by
  have ok := ends.lookahead_eq
  have within := withinRule_runOn work (some id)
  generalize (withinRule (some id)).runOn work = answer at within
  cases within with
  | known kept =>
      rw [unknown] at kept
      contradiction
  | failed _ searches =>
      have refused := searches.lookahead_eq
      rw [ok] at refused
      contradiction
  | found _ searches =>
      have same := searches.lookahead_eq
      rw [ok] at same
      obtain rfl := Except.ok.inj same
      rfl

theorem expectedBeyond_runOn (work : Workspace) (links : List Int) (found : RangeSet) :
    ExpectedBeyond work links found ((expectedBeyond links found).runOn work) := by
  induction links generalizing work found with
  | nil => exact .exhausted
  | cons link outer inductionHypothesis =>
      simp only [expectedBeyond, runOn_bind, runOn_lift, runOn_network]
      cases followed : work.net.followState link with
      | error fault => exact .unreturned followed
      | ok next =>
          simp only
          have within := withinRule_runOn work next
          rcases run : (withinRule next).runOn work with ⟨fault | following, later⟩ <;> rw [run] at within
          · exact .refused followed within
          · simp only
            split
            · rename_i canEnd
              exact .further followed within canEnd (inductionHypothesis later _)
            · rename_i goesOn
              exact .settled followed within goesOn

theorem expected_runOn (work : Workspace) (number : Int) (stack : CallStack) :
    Expected work number stack ((expected number stack).runOn work) := by
  simp only [expected, runOn_bind, runOn_network]
  cases listed : work.net.slot? number with
  | none => exact .unlisted listed
  | some id =>
      simp only [runOn_bind]
      have within := withinRule_runOn work (some id)
      rcases run : (withinRule (some id)).runOn work with ⟨fault | following, later⟩ <;> rw [run] at within
      · exact .refused listed within
      · simp only
        split
        · rename_i canEnd
          exact .further listed within canEnd (expectedBeyond_runOn later _ _)
        · rename_i goesOn
          exact .settled listed within goesOn

theorem alternative_eq (net : Network) (t : Transition) : Alternative net t (alternative net t) := by
  have searches :=
    searches_lookahead net { throughPredicates := false, marksEnd := false } (some t.target) .root
  unfold alternative
  simp only
  cases outcome : net.lookahead { throughPredicates := false, marksEnd := false } (some t.target) .root with
  | error fault =>
      rw [outcome] at searches
      exact .failed searches
  | ok found =>
      rw [outcome] at searches
      simp only [bind, Except.bind]
      split
      · rename_i useless
        exact .unanswered searches useless
      · rename_i useful
        exact .answered searches useful

theorem alternativesFrom_runOn (s : State) (work : Workspace) (index : Nat) (transitions : List Transition) :
    AlternativesFrom s work index transitions ((alternativesFrom s index transitions).runOn work) := by
  induction transitions generalizing work index with
  | nil => exact .done
  | cons t rest inductionHypothesis =>
      have answered := alternative_eq work.net t
      simp only [alternativesFrom, runOn_bind, runOn_lift, runOn_network, runOn_report]
      cases outcome : alternative work.net t with
      | error fault =>
          rw [outcome] at answered
          exact .failed answered
      | ok found =>
          rw [outcome] at answered
          simp only
          have others := inductionHypothesis
            { work with log := work.log ++ [.alternative index s.number found] } (index + 1)
          rcases same : (alternativesFrom s (index + 1) rest).runOn
            { work with log := work.log ++ [.alternative index s.number found] } with ⟨fault | later, last⟩
          · rw [same] at others
            exact .next answered others
          · rw [same] at others
            exact .next answered others

/-- Every query is answered by a finite derivation. -/
theorem answers_runOn (work : Workspace) (query : Query) : Answers work query (query.ask.runOn work) := by
  cases query with
  | withinRule state =>
      rw [Query.ask, runOn_bind_pure]
      exact .withinRule (withinRule_runOn work state)
  | next state callers =>
      rw [Query.ask, runOn_bind_pure, Lookahead.next]
      split
      · rename_i alone
        exact .nextWithin alone (withinRule_runOn work state)
      · rename_i called
        rw [runOn_look]
        exact .nextAlong called (searches_lookahead work.net {} state callers.stack)
  | look state stop callers =>
      rw [Query.ask, runOn_bind_pure, runOn_look]
      exact .look (searches_lookahead work.net { stop := stop } state callers.stack)
  | expected number callers =>
      rw [Query.ask, runOn_bind_pure]
      exact .expected (expected_runOn work number callers.stack)
  | alternatives state =>
      cases state with
      | none => exact .noAlternatives
      | some id =>
          rw [Query.ask, runOn_bind_pure, Lookahead.alternatives, runOn_bind]
          simp only [runOn_network]
          rw [runOn_bind_pure]
          have alternatives := alternativesFrom_runOn (work.net.state id) work 0 (work.net.state id).transitions
          rcases run : (alternativesFrom (work.net.state id) 0 (work.net.state id).transitions).runOn work with
            ⟨fault | found, later⟩ <;> rw [run] at alternatives
          · exact .alternatives alternatives
          · exact .alternatives alternatives

/-! ## Searches and queries end -/

/-- On every network, however malformed, a search from any state under any chain does finitely many tasks and then
yields what `lookahead` yields. What it visits lies on paths along which the links of the chain less the rules entered
never become more, so that no chain outgrows the one at the start by more than the number of rules that are invoked.
Hence every query is answered by a finite derivation. -/
theorem searches_and_queries_end (work : Workspace) :
    (∀ (mode : SearchMode) (state : Option StateId) (stack : CallStack),
      (∃ steps, Search.Ends work.net mode (Search.start state stack) (work.net.lookahead mode state stack) steps ∧
        steps ≤ (Search.keys work.net stack).length * work.net.branching + 1) ∧
      (∀ search config, Search.Reached work.net mode (Search.start state stack) search →
        .visit config ∈ search.pending → Search.Calling work.net mode ⟨state, stack, []⟩ config) ∧
      ∀ config later, Search.Calling work.net mode ⟨state, stack, []⟩ config →
        Search.Calling work.net mode config later →
          (later.stack.length : Int) - later.entered.length ≤ config.stack.length - config.entered.length ∧
            later.stack.length ≤ stack.length + work.net.calledRules.card) ∧
    ∀ query : Query, Answers work query (query.ask.runOn work) := by
  refine ⟨fun mode state stack => ⟨Search.ends_lookahead work.net mode state stack, ?_, ?_⟩, answers_runOn work⟩
  · exact fun search config reached pending => reached.calling pending
  · exact fun config later path further =>
      ⟨further.links_sub_entered_le, Search.Calling.length_stack_le (path.trans further)⟩

end Totality

end Lookahead

end GrammarNet
