import GrammarNet.Verification
import GrammarNet.Workspace

/-!
# Construction of a network

A network grows by steps. Each step is a value, `Step`, and `Step.run` is what it does. A step that fails keeps what
it changed before it failed: a rule invocation without a place to go on at, for instance, has already left its state.
-/

namespace GrammarNet

namespace Construction

open NetM

/-! ## States and slots -/

/-- Makes a state that is not listed in the network. -/
def make (kind : StateKind) (rule : Int) : NetM StateId := do
  let id := (← network).store.size
  change fun net => { net with store := net.store.push (.ofKind kind rule) }
  return id

/-- Lists a state in the next slot and numbers it after the slot; without a state, the slot is reserved. -/
def list (state : Option StateId) : NetM Unit := do
  if let some id := state then
    let slot := (← network).slots.size
    change (·.modify id fun s => { s with owned := true, number := slot })
  change fun net => { net with slots := net.slots.push state }

/-- Clears a slot. The other states keep their numbers. -/
def clear (slot : Int) : NetM Unit := do
  match position? (← network).slots.size slot with
  | none => throw .outOfRange
  | some place => change fun net => { net with slots := net.slots.setIfInBounds place none }

/-- Makes a state and lists it. -/
def add (kind : StateKind) (rule : Int) : NetM StateId := do
  let id ← make kind rule
  list (some id)
  return id

/-- Gives a state an attribute. -/
def set (state : Option StateId) (value : Attribute) : NetM Unit := do
  let id ← required state
  change (·.modify id (·.set value))

/-! ## Rules, decisions and modes -/

/-- Registers the next decision, and stamps its state with the place of the decision. -/
def decision (state : Option StateId) : NetM Nat := do
  let place := (← network).decisions.size
  change fun net => { net with decisions := net.decisions.push state }
  set state (.decision (some place))
  return place

/-- Makes the start and the stop of the next rule. -/
def rule (symbol : Symbol) : NetM (StateId × StateId) := do
  let index := (← network).ruleStarts.size
  let start ← add .ruleStart index
  let stop ← add .ruleStop index
  set (some start) (.stopState (some stop))
  change fun net =>
    { net with
      ruleStarts := net.ruleStarts.push (some start)
      ruleStops := net.ruleStops.push (some stop)
      ruleSymbols := net.ruleSymbols.map (·.push symbol) }
  let net ← network
  report (.ruleMade index (net.state start).number (net.state stop).number)
  return (start, stop)

/-- Makes the start and the end of a block, linked to each other, and registers the start as a decision. -/
def block (rule : Int) (kind : StateKind) : NetM (StateId × StateId) := do
  let start ← add kind rule
  let stop ← add .blockEnd rule
  set (some start) (.endState (some stop))
  set (some stop) (.startState (some start))
  let _ ← decision (some start)
  return (start, stop)

/-- Registers the start state of the next mode. A name that is given again moves to the new mode. -/
def defineMode (state : Option StateId) (name : Option String) : NetM Nat := do
  let ordinal := (← network).modes.size
  change fun net =>
    { net with
      modes := net.modes.push state
      modeNames :=
        match name with
        | none => net.modeNames
        | some name => (name, state) :: net.modeNames.filter (·.1 != name) }
  return ordinal

/-- Registers a state as a decision and as the start of the next mode. -/
def mode (state : Option StateId) (name : Option String) : NetM Nat := do
  let _ ← decision state
  defineMode state name

/-- Registers a lexer action. -/
def lexerAction (action : LexerAction) : NetM Nat := do
  let place := (← network).actions.size
  change fun net => { net with actions := net.actions.push action }
  return place

/-! ## Transitions -/

/-- Adds a transition to a state, and logs it when the state now mixes transitions that consume with others. A number
that is no position is noticed only after the state was made ready. -/
def attach (source : Option StateId) (t : Transition) (position : Option Int) : NetM Unit := do
  let id ← required source
  let s := (← network).state id
  if s.mixesWith t then
    report (.mixedTransitions s.number)
  if position.all addressable then
    change (·.modify id (·.addTransition t position))
  else
    change (·.modify id (·.prepare t))
    throw .positionTooFar

/-- The transition of a kind to a target, which has to be there. -/
def transitionTo (target : Option StateId) (kind : TransitionKind) : Except Fault Transition :=
  match target with
  | some id => .ok ⟨id, kind⟩
  | none => .error .noTarget

/-- Adds a transition of a given kind between two states. A missing target is noticed before a missing source. -/
def connect (source target : Option StateId) (kind : TransitionKind) (position : Option Int) :
    NetM Transition := do
  let t ← transitionTo target kind
  attach source t position
  return t

/-- Invokes a rule in `source` and goes on at `follow`. The stop of the rule gets a transition to `follow`, which
remembers the rule if this invokes a left-recursive rule at its lowest precedence. -/
def invoke (source : Option StateId) (rule : Int) (follow : Option StateId) (precedence : Int) :
    NetM Transition := do
  let start ← (← network).ruleStart rule
  let t : Transition := ⟨start, .rule rule precedence follow⟩
  attach source t none
  let leftRecursive ← present ((← network).state start).attributes.leftRecursive
  let outermost := if leftRecursive = some true ∧ precedence = 0 then rule else -1
  let stop ← (← network).ruleStop rule
  let _ ← connect (some stop) follow (.epsilon outermost) none
  return t

/-! ## Tables -/

/-- A table that can be edited directly. -/
inductive Table where
  | ruleStarts
  | ruleStops
  | decisions

/-- A direct edit of a table. -/
inductive TableEdit where
  | set (place : Int) (state : Option StateId)
  | append (state : Option StateId)
  | pop

namespace TableEdit

/-- What an edit makes of a table. -/
def apply : TableEdit → Array (Option StateId) → Except Fault (Array (Option StateId))
  | set i state, table =>
      match position? table.size i with
      | some place => .ok (table.setIfInBounds place state)
      | none => .error .outOfRange
  | append state, table => .ok (table.push state)
  | pop, table => if table.isEmpty then .error .outOfRange else .ok table.pop

end TableEdit

/-- Edits a table. -/
def editTable (table : Table) (edit : TableEdit) : NetM Unit := do
  let net ← network
  match table with
  | .ruleStarts =>
      let edited ← edit.apply net.ruleStarts
      change ({ · with ruleStarts := edited })
  | .ruleStops =>
      let edited ← edit.apply net.ruleStops
      change ({ · with ruleStops := edited })
  | .decisions =>
      let edited ← edit.apply net.decisions
      change ({ · with decisions := edited })

/-! ## Completion -/

/-- Finishes the construction, with or without verifying the network. -/
def build (verified : Bool) : NetM Unit := do
  let net ← network
  if verified then
    net.verify
  report (.networkBuilt net.kind net.slots.size net.ruleStarts.size net.decisions.size)

/-! ## Steps -/

/-- The transitions that can be drawn between two states, without those that invoke a rule. A predicate and an action
belong to the rule of the state that they leave. -/
inductive Arrow where
  | epsilon (outermostReturn : Int)
  | atom (symbol : Symbol)
  | interval (first last : Symbol)
  | anyOf (symbols : List Symbol)
  | noneOf (symbols : List Symbol)
  | wildcard
  | predicate (index : Int) (contextDependent : Bool)
  | precedence (level : Int)
  | action (index : Int) (contextDependent : Bool)

/-- The kind of transition that an arrow draws. Only arrows that belong to a rule ask for the rule of their source. -/
def Arrow.kind (rule : Except Fault Int) : Arrow → Except Fault TransitionKind
  | .epsilon outermostReturn => .ok (.epsilon outermostReturn)
  | .atom symbol => .ok (.atom symbol (.single symbol))
  | .interval first last => .ok (.range first last (.interval first last))
  | .anyOf symbols => .ok (.set (.ofSet (some { set := .ofList symbols })))
  | .noneOf symbols => .ok (.notSet (.ofSet (some { set := .ofList symbols })))
  | .wildcard => .ok .wildcard
  | .predicate index contextDependent => rule.map (.predicate · index contextDependent)
  | .precedence level => .ok (.precedence level)
  | .action index contextDependent => rule.map (.action · index contextDependent)

/-- Draws an arrow between two states. -/
def draw (source target : Option StateId) (arrow : Arrow) : NetM Transition := do
  let net ← network
  let kind ← arrow.kind ((required source).map fun id => (net.state id).rule)
  connect source target kind none

/-- A step of the construction. -/
inductive Step where
  | make (kind : StateKind) (rule : Int)
  | add (kind : StateKind) (rule : Int)
  | list (state : Option StateId)
  | clear (slot : Int)
  | set (state : Option StateId) (value : Attribute)
  | rule (symbol : Symbol)
  | block (rule : Int) (kind : StateKind)
  | decision (state : Option StateId)
  | mode (state : Option StateId) (name : Option String)
  | defineMode (state : Option StateId) (name : Option String)
  | lexerAction (action : LexerAction)
  | draw (source target : Option StateId) (arrow : Arrow)
  | connect (source target : Option StateId) (kind : TransitionKind) (position : Option Int)
  | invoke (source : Option StateId) (rule : Int) (follow : Option StateId) (precedence : Int)
  | editTable (table : Table) (edit : TableEdit)
  | verify
  | build (verified : Bool)

/-- What a step yields. -/
inductive Outcome where
  | nothing
  | built
  | state (id : StateId)
  | states (first second : StateId)
  | count (n : Nat)
  | transition (t : Transition)

/-- Takes a step. -/
def Step.run : Step → NetM Outcome
  | .make kind owner => return .state (← Construction.make kind owner)
  | .add kind owner => return .state (← Construction.add kind owner)
  | .list state => do
      Construction.list state
      return .count (← network).slots.size
  | .clear slot => do
      Construction.clear slot
      return .nothing
  | .set state value => do
      Construction.set state value
      return .nothing
  | .rule symbol => do
      let (start, stop) ← Construction.rule symbol
      return .states start stop
  | .block owner kind => do
      let (start, stop) ← Construction.block owner kind
      return .states start stop
  | .decision state => return .count (← Construction.decision state)
  | .mode state name => return .count (← Construction.mode state name)
  | .defineMode state name => return .count (← Construction.defineMode state name)
  | .lexerAction action => return .count (← Construction.lexerAction action)
  | .draw source target arrow => return .transition (← Construction.draw source target arrow)
  | .connect source target kind position =>
      return .transition (← Construction.connect source target kind position)
  | .invoke source callee follow precedence =>
      return .transition (← Construction.invoke source callee follow precedence)
  | .editTable table edit => do
      Construction.editTable table edit
      return .nothing
  | .verify => do
      (← network).verify
      return .nothing
  | .build verified => do
      Construction.build verified
      return .built

end Construction

end GrammarNet
