import Std.Data.HashSet
import GrammarNet.CallStack
import GrammarNet.Network
import GrammarNet.RangeSet.Removal

/-!
# The closure search

Which symbols can come first on a path from a state? The search follows transitions that consume nothing, invokes
rules and returns from them, and collects what the consuming transitions offer. Each configuration carries the chain
of invocations and the rules entered on its own path, so that left recursion is cut off; configurations with the same
state number and chain are visited once.
-/

namespace GrammarNet

/-! ## What a consuming transition offers -/

/-- The symbols that a transition of this kind adds to a lookahead, in a vocabulary up to `greatest`. A transition
that is passed without consuming, and one that never matches, adds none. -/
def TransitionKind.offer (kind : TransitionKind) (greatest : Symbol) : Except Fault RangeSet :=
  match kind with
  | .atom _ label | .range _ _ label | .set label => .ok label.set
  | .notSet label =>
      if greatest < Symbol.firstUser then .ok .empty
      else label.set.complement Symbol.firstUser greatest
  | .wildcard =>
      if greatest < Symbol.firstUser then .ok .empty
      else .ok (RangeSet.empty.insertRange ⟨Symbol.firstUser, greatest + 1⟩)
  | _ => .ok .empty

/-! ## Configurations and tasks -/

/-- What a search stops at, whether it looks past predicates, and whether it reports the end of the outermost rule
as the end of the input or goes on along the transitions of its stop. -/
structure SearchMode where
  stop : Option StateId := none
  throughPredicates : Bool := true
  marksEnd : Bool := true

/-- A point that a path has reached: a state, the invocations that led to it, and the rules entered on the path. -/
structure Config where
  state : Option StateId
  stack : CallStack
  entered : List Int := []

/-- Something that a search still has to do. -/
inductive Task where
  | visit (config : Config)
  | report (x : Symbol)
  | consume (kind : TransitionKind)

/-- The mark that a visited configuration leaves: the number of its state, and its chain. -/
abbrev VisitKey := Int × CallStack

/-- A search: the tasks in the order in which they will be done, the marks of the configurations visited, and what was
found. -/
structure Search where
  pending : List Task
  visited : Std.HashSet VisitKey := ∅
  found : RangeSet := .empty

namespace Search

/-! ## Steps -/

/-- Where a transition leads from a configuration. A rule that the path has entered already is not entered again. -/
def follow (net : Network) (mode : SearchMode) (s : State) (config : Config) (t : Transition) : List Task :=
  match t.kind with
  | .rule .. =>
      let callee := (net.state t.target).rule
      if callee ∈ config.entered then []
      else [.visit ⟨some t.target, config.stack.push s.number, callee :: config.entered⟩]
  | .abstractPredicate | .predicate .. | .precedence .. =>
      if mode.throughPredicates then [.visit { config with state := some t.target }]
      else [.report .invalid]
  | .epsilon .. | .action .. => [.visit { config with state := some t.target }]
  | kind => [.consume kind]

/-- What visiting a state leads to. Where paths end, an unknown caller yields the epsilon mark, a root the end of the
input, and an invocation the state to return to, with the rule of the ended path no longer entered. -/
def expand (net : Network) (mode : SearchMode) (id : StateId) (config : Config) : Except Fault (List Task) :=
  let s := net.state id
  let ends := mode.stop = some id ∨ s.isRuleStop = true
  match config.stack with
  | [] =>
      if ends then .ok [.report .epsilon]
      else .ok (s.transitions.flatMap (follow net mode s config))
  | link :: outer =>
      if ends ∧ link < 0 ∧ mode.marksEnd = true then .ok [.report .endOfInput]
      else if s.isRuleStop = true ∧ 0 ≤ link then
        (net.followState link).map fun next => [.visit ⟨next, outer, config.entered.erase s.rule⟩]
      else .ok (s.transitions.flatMap (follow net mode s config))

/-- Does one task, with `rest` still to be done after it. -/
def perform (net : Network) (mode : SearchMode) (search : Search) (task : Task) (rest : List Task) :
    Except Fault Search :=
  match task with
  | .report x => .ok { search with pending := rest, found := search.found.insert x }
  | .consume kind =>
      (kind.offer net.maxSymbol).map fun offer =>
        { search with pending := rest, found := search.found.union offer }
  | .visit config =>
      match config.state with
      | none => .error .noState
      | some id =>
          let key : VisitKey := ((net.state id).number, config.stack)
          if key ∈ search.visited then .ok { search with pending := rest }
          else
            match expand net mode id config with
            | .error fault => .error fault
            | .ok tasks =>
                .ok { search with pending := tasks ++ rest, visited := search.visited.insert key }

section Perform

variable {net : Network} {mode : SearchMode} {search : Search} {config : Config} {id : StateId} {rest : List Task}

/-- A configuration that left its mark before is passed over. -/
theorem perform_visit_of_mem
    (state : config.state = some id)
    (seen : ((net.state id).number, config.stack) ∈ search.visited) :
    perform net mode search (.visit config) rest = .ok { search with pending := rest } := by
  simp only [perform, state, seen, if_true]

/-- A configuration without a mark leaves one, and what it leads to is done next. -/
theorem perform_visit_of_not_mem
    (state : config.state = some id)
    (fresh : ((net.state id).number, config.stack) ∉ search.visited)
    {tasks : List Task} (expanded : expand net mode id config = .ok tasks) :
    perform net mode search (.visit config) rest =
      .ok { search with
        pending := tasks ++ rest
        visited := search.visited.insert ((net.state id).number, config.stack) } := by
  simp only [perform, state, fresh, if_false, expanded]

/-- A configuration that cannot be expanded ends the search. -/
theorem perform_visit_of_error
    (state : config.state = some id)
    (fresh : ((net.state id).number, config.stack) ∉ search.visited)
    {fault : Fault} (expanded : expand net mode id config = .error fault) :
    perform net mode search (.visit config) rest = .error fault := by
  simp only [perform, state, fresh, if_false, expanded]

end Perform

/-- The search that is about to visit one state under a chain of callers. -/
def start (state : Option StateId) (stack : CallStack) : Search where
  pending := [.visit ⟨state, stack, []⟩]

end Search

end GrammarNet
