import GrammarNet.Network

/-!
# Events

Events that a log records, and the line in which each is written.
-/

namespace GrammarNet

namespace RangeSet

/-- The ranges of a set as nested brackets, or the word for a set that was never filled. -/
def listing (s : RangeSet) : String :=
  match s.ranges? with
  | none => "null"
  | some ranges => "[" ++ ",".intercalate (ranges.map fun r => s!"[{r.start},{r.stop}]") ++ "]"

end RangeSet

/-- Something worth a line in the log. Only the mixture of transitions is an error. -/
inductive Event where
  | mixedTransitions (number : Int)
  | ruleMade (rule : Nat) (start stop : Int)
  | networkBuilt (kind : NetworkKind) (states rules decisions : Nat)
  | rendering (states : Nat) (name : Option String)
  | withinRule (rule number : Int) (next : RangeSet)
  | alternative (index : Nat) (number : Int) (lookahead : Option RangeSet)
  deriving DecidableEq

namespace Event

/-- Whether the event is logged without being asked for. -/
def isError : Event → Bool
  | mixedTransitions _ => true
  | _ => false

/-- The text of an event. -/
def text : Event → String
  | mixedTransitions number => s!"ATN state {number} has both epsilon and non-epsilon transitions."
  | ruleMade rule start stop => s!"Rule {rule}: start state {start}, stop state {stop}."
  | networkBuilt kind states rules decisions =>
      s!"Built {kind.name} ATN with {states} states, {rules} rules and {decisions} decisions."
  | rendering states name =>
      let shown := name.getD "None"
      s!"Rendering {states} states of {shown}."
  | withinRule rule number next => s!"Next tokens within rule {rule} from state {number}: {next.listing}"
  | alternative index number lookahead =>
      let listing := (lookahead.map RangeSet.listing).getD "None"
      s!"Lookahead of alternative {index} of state {number}: {listing}"

/-- The line of an event: its level and its text. -/
def line (event : Event) : String :=
  (if event.isError then "ERROR: " else "DEBUG: ") ++ event.text

end Event

end GrammarNet
