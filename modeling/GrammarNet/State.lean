import GrammarNet.Fault
import GrammarNet.Position
import GrammarNet.Transition

/-!
# States

States of a network: the part that a state plays in its rule, the attributes that go with that part, and the
transitions that leave it.
-/

namespace GrammarNet

/-! ## Parts that a state can play -/

/-- The part that a state plays in its rule. The first three are general parts without a code of their own. -/
inductive StateKind where
  | general
  | generalDecision
  | generalBlockStart
  | basic
  | basicBlockStart
  | blockEnd
  | ruleStop
  | ruleStart
  | plusLoopBack
  | plusBlockStart
  | starBlockStart
  | starLoopBack
  | starLoopEntry
  | loopEnd
  | tokensStart
  deriving DecidableEq, Inhabited

namespace StateKind

/-- The kinds of states, each once. -/
def all : List StateKind :=
  [general, generalDecision, generalBlockStart, basic, basicBlockStart, blockEnd, ruleStop, ruleStart, plusLoopBack,
    plusBlockStart, starBlockStart, starLoopBack, starLoopEntry, loopEnd, tokensStart]

/-- The name of the class of states of this kind. -/
def className : StateKind → String
  | general => "ATNState"
  | generalDecision => "DecisionState"
  | generalBlockStart => "BlockStartState"
  | basic => "BasicState"
  | basicBlockStart => "BasicBlockStartState"
  | blockEnd => "BlockEndState"
  | ruleStop => "RuleStopState"
  | ruleStart => "RuleStartState"
  | plusLoopBack => "PlusLoopbackState"
  | plusBlockStart => "PlusBlockStartState"
  | starBlockStart => "StarBlockStartState"
  | starLoopBack => "StarLoopbackState"
  | starLoopEntry => "StarLoopEntryState"
  | loopEnd => "LoopEndState"
  | tokensStart => "TokensStartState"

/-- The code that a stored network uses for this kind. -/
def code : StateKind → Nat
  | general | generalDecision | generalBlockStart => 0
  | basic => 1
  | ruleStart => 2
  | basicBlockStart => 3
  | plusBlockStart => 4
  | starBlockStart => 5
  | tokensStart => 6
  | ruleStop => 7
  | blockEnd => 8
  | starLoopBack => 9
  | starLoopEntry => 10
  | plusLoopBack => 11
  | loopEnd => 12

/-- The name of that code. -/
def typeName : StateKind → String
  | general | generalDecision | generalBlockStart => "INVALID_TYPE"
  | basic => "BASIC"
  | ruleStart => "RULE_START"
  | basicBlockStart => "BLOCK_START"
  | plusBlockStart => "PLUS_BLOCK_START"
  | starBlockStart => "STAR_BLOCK_START"
  | tokensStart => "TOKEN_START"
  | ruleStop => "RULE_STOP"
  | blockEnd => "BLOCK_END"
  | starLoopBack => "STAR_LOOP_BACK"
  | starLoopEntry => "STAR_LOOP_ENTRY"
  | plusLoopBack => "PLUS_LOOP_BACK"
  | loopEnd => "LOOP_END"

/-- Whether a state of this kind starts a block. -/
def isBlockStart : StateKind → Bool
  | generalBlockStart | basicBlockStart | plusBlockStart | starBlockStart => true
  | _ => false

/-- Whether a state of this kind is made to have several ways out. -/
def isDecision : StateKind → Bool
  | generalDecision | plusLoopBack | starLoopEntry | tokensStart => true
  | kind => kind.isBlockStart

end StateKind

/-! ## Attributes -/

/-- The attributes of a state beyond those that every state has. An attribute that is `none` is one that the state
does not have; one that is `some none` is present without a value. -/
structure Attributes where
  decision : Option (Option Int) := none
  nonGreedy : Option (Option Bool) := none
  endState : Option (Option StateId) := none
  startState : Option (Option StateId) := none
  loopBack : Option (Option StateId) := none
  stopState : Option (Option StateId) := none
  leftRecursive : Option (Option Bool) := none
  precedenceDecision : Option (Option Bool) := none
  deriving DecidableEq, Inhabited

/-- The attributes with which a state of a kind starts out. -/
def StateKind.attributes (kind : StateKind) : Attributes where
  decision := if kind.isDecision then some (some (-1)) else none
  nonGreedy := if kind.isDecision then some (some false) else none
  endState := if kind.isBlockStart then some none else none
  startState := if kind = .blockEnd then some none else none
  loopBack := if kind = .plusBlockStart ∨ kind = .starLoopEntry ∨ kind = .loopEnd then some none else none
  stopState := if kind = .ruleStart then some none else none
  leftRecursive := if kind = .ruleStart then some (some false) else none
  precedenceDecision := if kind = .starLoopEntry then some (some false) else none

/-! ## States -/

/-- A state. Its `number` is -1 until it is listed in a network, which it then is `owned` by. The flag `epsilonOnly`
tells whether its transitions, if any, all consume nothing, and is without a value only where it was set so;
`withinRule` keeps what is known to come next without leaving its rule. -/
structure State where
  kind : StateKind := .general
  number : Int := -1
  rule : Int := -1
  owned : Bool := false
  epsilonOnly : Option Bool := some false
  transitions : List Transition := []
  withinRule : Option RangeSet := none
  attributes : Attributes := {}
  deriving Inhabited

/-- A value given to an attribute of a state. The attribute `other` stands for any note that a caller keeps on a state
and that nothing in the network reads. -/
inductive Attribute where
  | number (value : Int)
  | rule (value : Int)
  | epsilonOnly (value : Option Bool)
  | owned (value : Bool)
  | withinRule (value : Option RangeSet)
  | decision (value : Option Int)
  | nonGreedy (value : Option Bool)
  | endState (link : Option StateId)
  | startState (link : Option StateId)
  | loopBack (link : Option StateId)
  | stopState (link : Option StateId)
  | leftRecursive (value : Option Bool)
  | precedenceDecision (value : Option Bool)
  | noTransitions
  | other

namespace State

/-- A state as it is made: of a kind, in a rule, and not listed yet. -/
def ofKind (kind : StateKind) (rule : Int) : State where
  kind := kind
  rule := rule
  attributes := kind.attributes

/-- Whether paths through the rule end here. -/
def isRuleStop (s : State) : Bool := s.kind == .ruleStop

/-- Whether a state has a decision number, that is, one from zero on. An attribute without a value cannot be compared
with a number. -/
def hasDecision (s : State) : Except Fault Bool :=
  match s.attributes.decision with
  | none => .ok false
  | some none => .error .noValue
  | some (some number) => .ok (decide (0 ≤ number))

/-- The text that identifies a state. -/
def describe (s : State) : String := s!"{s.kind.className}({s.number}, rule={s.rule})"

/-- The state with one attribute set. Any state can be given any attribute. -/
def set (s : State) : Attribute → State
  | .number value => { s with number := value }
  | .rule value => { s with rule := value }
  | .epsilonOnly value => { s with epsilonOnly := value }
  | .owned value => { s with owned := value }
  | .withinRule value => { s with withinRule := value }
  | .decision value => { s with attributes.decision := some value }
  | .nonGreedy value => { s with attributes.nonGreedy := some value }
  | .endState link => { s with attributes.endState := some link }
  | .startState link => { s with attributes.startState := some link }
  | .loopBack link => { s with attributes.loopBack := some link }
  | .stopState link => { s with attributes.stopState := some link }
  | .leftRecursive value => { s with attributes.leftRecursive := some value }
  | .precedenceDecision value => { s with attributes.precedenceDecision := some value }
  | .noTransitions => { s with transitions := [] }
  | .other => s

/-- The transition at a signed position. -/
def transitionAt (s : State) (i : Int) : Except Fault Transition :=
  match (position? s.transitions.length i).bind (s.transitions[·]?) with
  | some t => .ok t
  | none => .error .outOfRange

/-- Whether a further transition would mix consuming and other transitions, as far as the flag can tell. -/
def mixesWith (s : State) (t : Transition) : Bool :=
  !s.transitions.isEmpty && s.epsilonOnly != some t.isEpsilon

/-- The state with its flag `epsilonOnly` made ready for a further transition. The first transition decides the flag,
and one that differs from it clears the flag for good. -/
def prepare (s : State) (t : Transition) : State :=
  { s with
    epsilonOnly :=
      if s.transitions.isEmpty then some t.isEpsilon
      else if s.mixesWith t then some false
      else s.epsilonOnly }

/-- The state with a transition put at the end or at a position. -/
def insertTransition (s : State) (t : Transition) (position : Option Int) : State :=
  { s with
    transitions :=
      match position with
      | none => s.transitions ++ [t]
      | some i => s.transitions.insertIdx (insertionPoint s.transitions.length i) t }

/-- The state with a further transition, at the end or at a position. -/
def addTransition (s : State) (t : Transition) (position : Option Int) : State :=
  (s.prepare t).insertTransition t position

end State

end GrammarNet
