import GrammarNet.RangeSet.Basic

/-!
# Transitions

Transitions between the states of a network. Some consume a symbol, the others are passed without consuming one:
among these, a rule transition invokes a rule and says where to go on after it.
-/

namespace GrammarNet

/-- The identity of a state: its place among the states in the order of their creation. -/
abbrev StateId := Nat

/-- The symbol set that a consuming transition carries. A `shared` label is also known under a name elsewhere, and
an edit under that name reaches it. -/
structure Label where
  set : RangeSet
  shared : Option Nat := none
  deriving DecidableEq, Inhabited

namespace Label

/-- The label that holds one symbol. -/
def single (x : Symbol) : Label := { set := .singleton x }

/-- The label for the symbols from `first` to `last`, both included. -/
def interval (first last : Symbol) : Label := { set := RangeSet.empty.insertRange ⟨first, last + 1⟩ }

/-- The label that a set transition carries for a given set: a set without ranges is replaced by the symbol that no
token has. -/
def ofSet : Option Label → Label
  | some label => if label.set.ranges = [] then single .invalid else label
  | none => single .invalid

end Label

/-- What a transition does. -/
inductive TransitionKind where
  /-- Consumes nothing and is not passed either. -/
  | plain
  /-- Passed under a condition of which nothing is known. -/
  | abstractPredicate
  | epsilon (outermostReturn : Int)
  | atom (symbol : Symbol) (label : Label)
  | range (first last : Symbol) (label : Label)
  | set (label : Label)
  | notSet (label : Label)
  | wildcard
  /-- Invokes a rule and goes on at `follow` once it returns. -/
  | rule (index precedence : Int) (follow : Option StateId)
  | predicate (rule index : Int) (contextDependent : Bool)
  | precedence (level : Int)
  | action (rule index : Int) (contextDependent : Bool)
  deriving DecidableEq, Inhabited

namespace TransitionKind

/-- Whether a transition of this kind is passed without consuming a symbol. -/
def isEpsilon : TransitionKind → Bool
  | abstractPredicate | epsilon .. | rule .. | predicate .. | precedence .. | action .. => true
  | plain | atom .. | range .. | set .. | notSet .. | wildcard => false

/-- Whether this is the invocation of a rule. -/
def isRule : TransitionKind → Bool
  | rule .. => true
  | _ => false

/-- The label that a transition of this kind carries. -/
def label? : TransitionKind → Option Label
  | atom _ label | range _ _ label | set label | notSet label => some label
  | _ => none

/-- The kind with its label replaced, if it carries one. -/
def mapLabel (f : Label → Label) : TransitionKind → TransitionKind
  | atom symbol label => atom symbol (f label)
  | range first last label => range first last (f label)
  | set label => set (f label)
  | notSet label => notSet (f label)
  | other => other

/-- Whether a transition of this kind consumes `x` in the vocabulary from `least` to `greatest`. -/
def accepts (kind : TransitionKind) (x least greatest : Symbol) : Bool :=
  match kind with
  | atom symbol _ => symbol == x
  | range first last _ => decide (first ≤ x ∧ x ≤ last)
  | set label => decide (x ∈ label.set)
  | notSet label => decide (least ≤ x ∧ x ≤ greatest ∧ x ∉ label.set)
  | wildcard => decide (least ≤ x ∧ x ≤ greatest)
  | _ => false

/-- The name of the class of transitions of this kind. -/
def className : TransitionKind → String
  | plain => "Transition"
  | abstractPredicate => "AbstractPredicateTransition"
  | epsilon .. => "EpsilonTransition"
  | atom .. => "AtomTransition"
  | range .. => "RangeTransition"
  | set .. => "SetTransition"
  | notSet .. => "NotSetTransition"
  | wildcard => "WildcardTransition"
  | rule .. => "RuleTransition"
  | predicate .. => "PredicateTransition"
  | precedence .. => "PrecedencePredicateTransition"
  | action .. => "ActionTransition"

/-- The name of the code that a stored network uses for this kind, if it can be stored. -/
def typeName? : TransitionKind → Option String
  | plain | abstractPredicate => none
  | epsilon .. => some "EPSILON"
  | atom .. => some "ATOM"
  | range .. => some "RANGE"
  | set .. => some "SET"
  | notSet .. => some "NOT_SET"
  | wildcard => some "WILDCARD"
  | rule .. => some "RULE"
  | predicate .. => some "PREDICATE"
  | precedence .. => some "PRECEDENCE"
  | action .. => some "ACTION"

/-- The text of a transition of this kind. Kinds that are described by a set alone, or not at all, have none. -/
def text? : TransitionKind → Option String
  | plain | abstractPredicate | set .. | notSet .. => none
  | epsilon .. => some "epsilon"
  | atom symbol _ => some s!"{symbol}"
  | range first last _ => some s!"{first}..{last}"
  | wildcard => some "."
  | rule index .. => some s!"rule_{index}"
  | predicate owner index _ => some s!"pred_{owner}:{index}"
  | precedence level => some s!"{level} >= _p"
  | action owner index _ => some s!"action_{owner}:{index}"

end TransitionKind

/-- A transition to the state `target`. -/
structure Transition where
  target : StateId
  kind : TransitionKind
  deriving DecidableEq, Inhabited

namespace Transition

/-- Whether the transition is passed without consuming a symbol. -/
def isEpsilon (t : Transition) : Bool := t.kind.isEpsilon

/-- Whether the transition invokes a rule. -/
def isRule (t : Transition) : Bool := t.kind.isRule

/-- The transition with its label replaced, if it carries one. -/
def mapLabel (f : Label → Label) (t : Transition) : Transition := { t with kind := t.kind.mapLabel f }

end Transition

end GrammarNet
