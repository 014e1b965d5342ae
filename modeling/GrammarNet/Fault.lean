/-!
# Faults

What can go wrong, by cause. `Defect` lists the ways in which a network can be malformed, `Fault` lists every cause
of failure, and `Fault.message` gives the text that belongs to a cause, where there is one.
-/

namespace GrammarNet

/-- A structural invariant that a network violates. Numbers are state numbers unless their names say otherwise. -/
inductive Defect where
  | ruleWithoutStart (rule : Int)
  | ruleWithoutStop (rule : Int)
  | ruleNotLinked (rule : Int)
  | decisionMismatch (number decision : Int) (stamp : Option Int)
  | mixedTransitions (number : Int)
  | invocationNotAlone (number : Int)
  | invocationWithoutFollow (number : Int)
  | plusBlockWithoutLoopBack (number : Int)
  | starEntryWithoutLoopBack (number : Int)
  | starEntryNotBinary (number : Int)
  | starLoopBackAstray (number : Int)
  | loopEndWithoutLoopBack (number : Int)
  | ruleStartWithoutStop (number : Int)
  | blockStartWithoutEnd (number : Int)
  | blockEndWithoutStart (number : Int)
  | decisionWithoutNumber (number : Int)
  | branchingOutsideDecision (number : Int)
  | invokerAbsent (number : Int)
  | invokerWithoutInvocation (number : Int)
  deriving DecidableEq

/-- The sentence that reports a defect. -/
def Defect.message : Defect → String
  | ruleWithoutStart rule => s!"Rule {rule} has no start state."
  | ruleWithoutStop rule => s!"Rule {rule} has no stop state."
  | ruleNotLinked rule => s!"Start state of rule {rule} is not linked to its stop state."
  | decisionMismatch number decision stamp =>
      let shown := (stamp.map fun value => toString value).getD "None"
      s!"State {number} is registered as decision {decision} but it is stamped with {shown}."
  | mixedTransitions number => s!"State {number} has both epsilon and non-epsilon transitions."
  | invocationNotAlone number => s!"Rule invocation in state {number} is not its only transition."
  | invocationWithoutFollow number => s!"Rule invocation in state {number} has no follow state."
  | plusBlockWithoutLoopBack number => s!"Plus block start state {number} has no loop back state."
  | starEntryWithoutLoopBack number => s!"Star loop entry state {number} has no loop back state."
  | starEntryNotBinary number => s!"Star loop entry state {number} must have exactly two transitions."
  | starLoopBackAstray number => s!"Star loop back state {number} must point to a star loop entry state."
  | loopEndWithoutLoopBack number => s!"Loop end state {number} has no loop back state."
  | ruleStartWithoutStop number => s!"Rule start state {number} has no stop state."
  | blockStartWithoutEnd number => s!"Block start state {number} has no end state."
  | blockEndWithoutStart number => s!"Block end state {number} has no start state."
  | decisionWithoutNumber number => s!"Decision state {number} has no decision number."
  | branchingOutsideDecision number =>
      s!"State {number} has multiple transitions but it is not a decision state."
  | invokerAbsent number => s!"Invoking state {number} is not in the ATN."
  | invokerWithoutInvocation number => s!"Invoking state {number} has no rule transition."

/-- A cause of failure. -/
inductive Fault where
  /-- A position outside a table. -/
  | outOfRange
  /-- A mode name that was never defined. -/
  | unknownMode
  /-- A name under which no symbol set is kept. -/
  | unknownSet
  /-- No state where a state is needed. -/
  | noState
  /-- A state without the attribute that is asked for. -/
  | noAttribute
  /-- An attribute without a value that has to be compared with a number. -/
  | noValue
  /-- The label of a transition that has none, where symbols are looked for in it. -/
  | noSet
  /-- A rule without a name whose invocation has to be labelled. -/
  | noName
  /-- A transition without a target. -/
  | noTarget
  /-- The complement of a symbol set that was never filled. -/
  | unfilledSet
  /-- An edit of a frozen symbol set. -/
  | frozenSet
  /-- An edit of a link of an invocation chain. -/
  | immutableLink
  /-- A range with more elements than a size can count. -/
  | rangeTooLong
  /-- A number that is no position in any table. -/
  | positionTooFar
  /-- A code that is not a kind of network. -/
  | unknownNetworkKind (code : Int)
  /-- A state number that addresses no state of a network with `size` slots. -/
  | invalidStateNumber (number : Int) (size : Nat)
  | malformed (defect : Defect)
  deriving DecidableEq

/-- The text of a fault. Faults of mere look-up have none. -/
def Fault.message : Fault → Option String
  | noTarget => some "target cannot be None."
  | frozenSet => some "can't alter readonly IntervalSet"
  | immutableLink => some "InvocationContext is immutable."
  | unknownNetworkKind code => some s!"{code} is not a valid ATNType"
  | invalidStateNumber number size => some s!"Invalid state number: {number} (the ATN has {size} states)."
  | malformed defect => some defect.message
  | _ => none

end GrammarNet
