import GrammarNet.Search.Run
import GrammarNet.Workspace

/-!
# Lookahead queries

What can come next from a state: within its rule, beyond it along a chain of callers, for each alternative of a
decision, and in the eyes of a parser that has to say which symbols it expected. What can come next within a rule is
found once for each state and kept there, frozen.
-/

namespace GrammarNet

namespace Lookahead

open NetM

/-- What can come next from a state under a chain of callers, up to an optional state to stop at. -/
def look (state stop : Option StateId) (stack : CallStack) : NetM RangeSet := do
  (← network).lookahead { stop := stop } state stack

/-- What can come next from a state without leaving its rule; the epsilon mark stands for the end of the rule. The
answer is kept with the state. -/
def withinRule (state : Option StateId) : NetM RangeSet := do
  let id ← required state
  let s := (← network).state id
  match s.withinRule with
  | some known => return known
  | none =>
      let next := (← look state none .unknown).freeze
      change (·.modify id fun s => { s with withinRule := some next })
      report (.withinRule s.rule s.number next)
      return next

/-- What can come next from a state: within its rule if the callers are unknown or there is none, and along the chain
otherwise. -/
def next (state : Option StateId) (stack : CallStack) : NetM RangeSet :=
  if stack = .unknown ∨ stack.atRoot = true then withinRule state
  else look state none stack

/-! ## Expected symbols -/

/-- Goes out along a chain as long as the rule reached can end, and adds what can come next in it; when the chain is
used up, the input may end. -/
def expectedBeyond : List Int → RangeSet → NetM RangeSet
  | [], found => return found.insert Symbol.endOfInput
  | link :: outer, found => do
      let following ← withinRule (← (← network).followState link)
      let found := (found.union following).erase Symbol.epsilon
      if Symbol.epsilon ∈ following then expectedBeyond outer found
      else return found

/-- The symbols that can follow the state with a given number under a chain of callers. If its rule cannot end, this is
the very set that is kept with the state. -/
def expected (number : Int) (stack : CallStack) : NetM RangeSet := do
  let net ← network
  match net.slot? number with
  | none => throw (.invalidStateNumber number net.slots.size)
  | some id =>
      let following ← withinRule (some id)
      if Symbol.epsilon ∈ following then
        expectedBeyond stack.links ((RangeSet.empty.union following).erase Symbol.epsilon)
      else return following

/-! ## Alternatives of a decision -/

/-- What can come next after a transition, whatever called its rule. There is no answer if nothing is found, or if a
predicate comes before a symbol. -/
def alternative (net : Network) (t : Transition) : Except Fault (Option RangeSet) := do
  let mode : SearchMode := { throughPredicates := false, marksEnd := false }
  let found ← net.lookahead mode (some t.target) .root
  if found.ranges? = none ∨ Symbol.invalid ∈ found then return none
  else return some found

/-- The lookahead of the transitions of a state from a given index on. -/
def alternativesFrom (s : State) : (index : Nat) → List Transition → NetM (List (Option RangeSet))
  | _, [] => return []
  | index, t :: rest => do
      let found ← alternative (← network) t
      report (.alternative index s.number found)
      return found :: (← alternativesFrom s (index + 1) rest)

/-- The lookahead of each transition of a state, in their order. -/
def alternatives (state : Option StateId) : NetM (Option (List (Option RangeSet))) :=
  match state with
  | none => return none
  | some id => do
      let s := (← network).state id
      return some (← alternativesFrom s 0 s.transitions)

/-! ## Queries as values -/

/-- A question about lookahead. -/
inductive Query where
  | withinRule (state : Option StateId)
  | next (state : Option StateId) (callers : Callers)
  | look (state stop : Option StateId) (callers : Callers)
  | expected (number : Int) (callers : Callers)
  | alternatives (state : Option StateId)

/-- An answer to a question about lookahead. -/
inductive Answer where
  | set (found : RangeSet)
  | alternatives (found : Option (List (Option RangeSet)))

/-- Answers a question. -/
def Query.ask : Query → NetM Answer
  | .withinRule state => return .set (← Lookahead.withinRule state)
  | .next state callers => return .set (← Lookahead.next state callers.stack)
  | .look state stop callers => return .set (← Lookahead.look state stop callers.stack)
  | .expected number callers => return .set (← Lookahead.expected number callers.stack)
  | .alternatives state => return .alternatives (← Lookahead.alternatives state)

end Lookahead

end GrammarNet
