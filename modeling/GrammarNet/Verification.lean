import GrammarNet.Network

/-!
# Verification of a finished network

The rules are checked first, then the decision table, then each listed state. The first violated invariant is reported.
-/

namespace GrammarNet

/-- Succeeds if an invariant holds, and reports the defect otherwise. -/
def ensure (invariant : Prop) [Decidable invariant] (defect : Defect) : Except Fault Unit :=
  if invariant then .ok () else .error (.malformed defect)

/-- The value of an attribute that a state has to have. -/
def present {α : Type} (value : Option α) : Except Fault α :=
  match value with
  | some value => .ok value
  | none => .error .noAttribute

/-- The link of a state leads to a state. -/
def Linked (link : Option (Option StateId)) : Prop := link.join.isSome = true

instance (link : Option (Option StateId)) : Decidable (Linked link) :=
  inferInstanceAs (Decidable (_ = _))

namespace Network

/-- A rule has a start and a stop, and the start is linked to the stop. -/
def verifyRule (net : Network) (rule : Nat) : Except Fault Unit := do
  match (net.ruleStarts[rule]?).join with
  | none => .error (.malformed (.ruleWithoutStart rule))
  | some start =>
      match (net.ruleStops[rule]?).join with
      | none => .error (.malformed (.ruleWithoutStop rule))
      | some stop =>
          let link ← present (net.state start).attributes.stopState
          ensure (link = some stop) (.ruleNotLinked rule)

/-- A state in the decision table is stamped with its place there. -/
def verifyDecision (net : Network) (decision : Nat) (entry : Option StateId) : Except Fault Unit := do
  let s := net.state (← required entry)
  let stamp ← present s.attributes.decision
  ensure (stamp = some (decision : Int)) (.decisionMismatch s.number decision stamp)

/-- A transition that invokes a rule is the only one of its state and says where to go on. -/
def verifyTransition (s : State) (t : Transition) : Except Fault Unit := do
  match t.kind with
  | .rule _ _ follow =>
      ensure (s.transitions.length = 1) (.invocationNotAlone s.number)
      ensure (follow.isSome = true) (.invocationWithoutFollow s.number)
  | _ => .ok ()

/-- The only transition of a state leads to a state of the given kind. -/
def leadsOnlyTo (net : Network) (s : State) (kind : StateKind) : Bool :=
  match s.transitions with
  | [t] => (net.state t.target).kind == kind
  | _ => false

/-- A state keeps the invariants of its kind. -/
def verifyState (net : Network) (s : State) : Except Fault Unit := do
  let ways := s.transitions.length
  ensure (s.epsilonOnly = some true ∨ ways ≤ 1) (.mixedTransitions s.number)
  s.transitions.forM (verifyTransition s)
  match s.kind with
  | .plusBlockStart => ensure (Linked s.attributes.loopBack) (.plusBlockWithoutLoopBack s.number)
  | .starLoopEntry =>
      ensure (Linked s.attributes.loopBack) (.starEntryWithoutLoopBack s.number)
      ensure (ways = 2) (.starEntryNotBinary s.number)
  | .starLoopBack =>
      ensure (net.leadsOnlyTo s .starLoopEntry = true) (.starLoopBackAstray s.number)
  | .loopEnd => ensure (Linked s.attributes.loopBack) (.loopEndWithoutLoopBack s.number)
  | .ruleStart => ensure (Linked s.attributes.stopState) (.ruleStartWithoutStop s.number)
  | .blockEnd => ensure (Linked s.attributes.startState) (.blockEndWithoutStart s.number)
  | _ => .ok ()
  if s.kind.isBlockStart then
    ensure (Linked s.attributes.endState) (.blockStartWithoutEnd s.number)
  if s.kind.isDecision then
    if 1 < ways then
      ensure ((← s.hasDecision) = true) (.decisionWithoutNumber s.number)
  else
    ensure (ways ≤ 1 ∨ s.kind = .ruleStop) (.branchingOutsideDecision s.number)

/-- The network keeps every structural invariant. -/
def verify (net : Network) : Except Fault Unit := do
  (List.range (max net.ruleStarts.size net.ruleStops.size)).forM net.verifyRule
  net.decisions.toList.zipIdx.forM fun (entry, decision) => net.verifyDecision decision entry
  net.slots.toList.forM fun slot =>
    match slot with
    | none => .ok ()
    | some id => net.verifyState (net.state id)

end Network

end GrammarNet
