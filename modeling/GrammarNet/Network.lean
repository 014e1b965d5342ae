import GrammarNet.Fault
import GrammarNet.State

/-!
# Networks

Networks: the states that exist, the slots in which a network lists them, and the tables of its rules, decisions and
modes. States are addressed by their identity, which does not depend on slots and numbers.
-/

namespace GrammarNet

/-- A grammar is compiled into a network for its lexer and one for its parser. -/
inductive NetworkKind where
  | lexer
  | parser
  deriving DecidableEq, Inhabited

namespace NetworkKind

/-- The kind with a given code. -/
def ofCode (code : Int) : Except Fault NetworkKind :=
  if code = 0 then .ok lexer
  else if code = 1 then .ok parser
  else .error (.unknownNetworkKind code)

/-- The name of a kind in running text. -/
def name : NetworkKind → String
  | lexer => "lexer"
  | parser => "parser"

/-- The name of a kind as a constant. -/
def constantName : NetworkKind → String
  | lexer => "LEXER"
  | parser => "PARSER"

end NetworkKind

/-- What a lexer does when a rule has matched. -/
inductive LexerAction where
  | skip
  | more
  | popMode
  | type (token : Int)
  | mode (mode : Int)
  | pushMode (mode : Int)
  | channel (channel : Int)
  | custom (rule action : Int)
  deriving DecidableEq, Inhabited

namespace LexerAction

/-- The name of an action as a constant. -/
def constantName : LexerAction → String
  | skip => "SKIP"
  | more => "MORE"
  | popMode => "POP_MODE"
  | type _ => "TYPE"
  | mode _ => "MODE"
  | pushMode _ => "PUSH_MODE"
  | channel _ => "CHANNEL"
  | custom .. => "CUSTOM"

/-- The numbers that an action takes. -/
def arguments : LexerAction → List Int
  | skip | more | popMode => []
  | type n | mode n | pushMode n | channel n => [n]
  | custom rule action => [rule, action]

end LexerAction

/-! ## Networks -/

/-- An augmented transition network. `store` holds every state that was made, by identity; the tables refer to these.
A `slots` entry without a state was reserved or cleared. -/
structure Network where
  kind : NetworkKind
  maxSymbol : Symbol
  store : Array State := #[]
  slots : Array (Option StateId) := #[]
  decisions : Array (Option StateId) := #[]
  ruleStarts : Array (Option StateId) := #[]
  ruleStops : Array (Option StateId) := #[]
  ruleSymbols : Option (Array Symbol) := none
  modes : Array (Option StateId) := #[]
  modeNames : List (String × Option StateId) := []
  actions : Array LexerAction := #[]
  deriving Inhabited

/-- The entry that a signed position names. -/
def entryAt {α : Type} (table : Array α) (i : Int) : Except Fault α :=
  match (position? table.size i).bind (table[·]?) with
  | some entry => .ok entry
  | none => .error .outOfRange

/-- The state that has to be there. -/
def required (state : Option StateId) : Except Fault StateId :=
  match state with
  | some id => .ok id
  | none => .error .noState

namespace Network

/-- The network without any state. Lexer networks keep the symbol of each rule, parser networks do so on demand. -/
def initial (kind : NetworkKind) (maxSymbol : Symbol) (keepRuleSymbols : Bool) : Network where
  kind := kind
  maxSymbol := maxSymbol
  ruleSymbols := if kind = .lexer ∨ keepRuleSymbols then some #[] else none

/-- The state with a given identity. -/
def state (net : Network) (id : StateId) : State := net.store[id]?.getD default

/-- The network with one state changed. -/
def modify (net : Network) (id : StateId) (f : State → State) : Network :=
  { net with store := net.store.modify id f }

/-- The state in slot `number`, if that is a slot and holds one. -/
def slot? (net : Network) (number : Int) : Option StateId :=
  if 0 ≤ number then (net.slots[number.toNat]?).join else none

/-- The state listed as the start of a rule. -/
def ruleStart (net : Network) (rule : Int) : Except Fault StateId := do
  match ← entryAt net.ruleStarts rule with
  | some id => .ok id
  | none => .error (.malformed (.ruleWithoutStart rule))

/-- The state listed as the stop of a rule. -/
def ruleStop (net : Network) (rule : Int) : Except Fault StateId := do
  match ← entryAt net.ruleStops rule with
  | some id => .ok id
  | none => .error (.malformed (.ruleWithoutStop rule))

/-- The state listed under a decision number. Without decisions there is none, whatever the number. -/
def decisionState (net : Network) (decision : Int) : Except Fault (Option StateId) :=
  if net.decisions.isEmpty then .ok none else entryAt net.decisions decision

/-- The start state of the mode with a given ordinal. -/
def modeStart (net : Network) (ordinal : Int) : Except Fault (Option StateId) := entryAt net.modes ordinal

/-- The start state of the mode with a given name. -/
def modeStartNamed (net : Network) (name : String) : Except Fault (Option StateId) :=
  match net.modeNames.lookup name with
  | some state => .ok state
  | none => .error .unknownMode

/-- The named modes, in the order of their names. -/
def namedModes (net : Network) : List (String × Option StateId) :=
  net.modeNames.mergeSort fun first second => decide (first.1 ≤ second.1)

/-- The state where a rule goes on after the invocation made in state `number` returns. It may be missing. -/
def followState (net : Network) (number : Int) : Except Fault (Option StateId) :=
  match net.slot? number with
  | none => .error (.malformed (.invokerAbsent number))
  | some id =>
      match (net.state id).transitions.head? with
      | some ⟨_, .rule _ _ follow⟩ => .ok follow
      | _ => .error (.malformed (.invokerWithoutInvocation number))

end Network

end GrammarNet
