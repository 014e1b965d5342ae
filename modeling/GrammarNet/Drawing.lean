import GrammarNet.Workspace

/-!
# Drawings of a network

A drawing lists a node for each listed state and an edge for each transition of these states; its text is a digraph in
the DOT language.
-/

namespace GrammarNet

/-! ## Names -/

/-- The names that a drawing uses for rules and symbols. A name can be missing. -/
structure Names where
  rules : List (Option String) := []
  symbols : List (Option String) := []

namespace Names

/-- The entry at a position counted from the front, if there is one. -/
def listed {α : Type} (table : List α) (i : Int) : Option α :=
  if 0 ≤ i then table[i.toNat]? else none

/-- The name of a rule: its entry in the table, be it missing, or a name made from its index beyond the table. -/
def rule (names : Names) (index : Int) : Option String :=
  (listed names.rules index).getD (some s!"rule_{index}")

/-- The name of a rule in running text. -/
def shownRule (names : Names) (index : Int) : String := (names.rule index).getD "None"

/-- The name of a symbol: that of its mark, its entry in the table, or its number if that is missing or blank. -/
def symbol (names : Names) (x : Symbol) : String :=
  if x = .endOfInput then "EOF"
  else if x = .epsilon then "EPSILON"
  else
    match (listed names.symbols x).join with
    | some name => if name.isEmpty then toString x else name
    | none => toString x

/-- The largest number of elements that a range can have and still be measured: one below the 63rd power of two. -/
def measurable : Nat := 9223372036854775807

/-- The text of a range: the name of its only element, or the names of its ends. -/
def range (names : Names) (r : Range) : Except Fault String :=
  if measurable < r.length then .error .rangeTooLong
  else if r.length = 1 then .ok (names.symbol r.start)
  else .ok (names.symbol r.start ++ ".." ++ names.symbol (r.stop - 1))

/-- The text of a symbol set. -/
def set (names : Names) (s : RangeSet) : Except Fault String := do
  let parts ← s.ranges.mapM names.range
  return "\x7b" ++ ", ".intercalate parts ++ "\x7d"

/-- The label of a transition. A rule transition needs the name of its rule. -/
def label (names : Names) (t : Transition) : Except Fault String :=
  match t.kind with
  | .rule index .. =>
      match names.rule index with
      | some name => .ok name
      | none => .error .noName
  | .atom symbol _ => .ok (names.symbol symbol)
  | .notSet label => (names.set label.set).map ("~" ++ ·)
  | .set label => names.set label.set
  | kind => .ok (kind.text?.getD kind.className)

end Names

/-! ## Nodes and edges -/

/-- How a node is outlined. -/
inductive Outline where
  | plain
  | box
  | doubleCircle
  deriving DecidableEq

/-- The node of a state. -/
structure Node where
  number : Int
  label : String
  outline : Outline
  deriving DecidableEq

/-- The edge of a transition. Transitions that consume nothing are dashed. -/
structure Edge where
  source : Int
  target : Int
  label : String
  dashed : Bool
  deriving DecidableEq

/-- A drawing: its name, and its nodes and edges in order. -/
structure Drawing where
  name : String
  nodes : List Node
  edges : List Edge
  deriving DecidableEq

namespace Node

/-- The node of a state. The ends of a rule carry its name; the stop of a rule has a double outline, and a state with a
decision number has a box. -/
def ofState (names : Names) (s : State) : Except Fault Node := do
  let label :=
    match s.kind with
    | .ruleStart => s!"{s.number}: {names.shownRule s.rule} start"
    | .ruleStop => s!"{s.number}: {names.shownRule s.rule} stop"
    | _ => toString s.number
  if s.kind = .ruleStop then
    return { number := s.number, label := label, outline := .doubleCircle }
  else
    return { number := s.number, label := label, outline := if ← s.hasDecision then .box else .plain }

/-- The line of a node. -/
def line (node : Node) : String :=
  let outline :=
    match node.outline with
    | .plain => ""
    | .box => ", shape=box"
    | .doubleCircle => ", shape=doublecircle"
  s!"  s{node.number} [label=\"{node.label}\"{outline}];\n"

end Node

namespace Edge

/-- A label between quotes: a quote inside is preceded by a backslash. -/
def quote (label : String) : String :=
  String.ofList (label.toList.flatMap fun c => if c = '"' then ['\\', '"'] else [c])

/-- The edge of a transition of a state. -/
def ofTransition (net : Network) (names : Names) (s : State) (t : Transition) : Except Fault Edge := do
  let label ← names.label t
  return { source := s.number, target := (net.state t.target).number, label := label, dashed := t.isEpsilon }

/-- The line of an edge. -/
def line (edge : Edge) : String :=
  let style := if edge.dashed then ", style=dashed" else ""
  let label := quote edge.label
  s!"  s{edge.source} -> s{edge.target} [label=\"{label}\"{style}];\n"

end Edge

namespace Drawing

/-- The listed states, or those of one rule, in the order of their slots. -/
def states (net : Network) (rule : Option Int) : List State :=
  (net.slots.toList.filterMap fun slot => slot.map net.state).filter fun s =>
    rule.all fun index => s.rule == index

/-- The name of a drawing: that of the rule, or the kind of the network. -/
def title (net : Network) (names : Names) (rule : Option Int) : Option String :=
  match rule with
  | some index => names.rule index
  | none => some net.kind.name

/-- The drawing of the given states. -/
def ofStates (net : Network) (names : Names) (title : String) (states : List State) :
    Except Fault Drawing := do
  let nodes ← states.mapM (Node.ofState names)
  let edges ← states.mapM fun s => s.transitions.mapM (Edge.ofTransition net names s)
  return { name := title, nodes := nodes, edges := edges.flatten }

/-- The lines before the nodes. -/
def header (name : String) : String :=
  "digraph " ++ name ++ " \x7b\n  rankdir=LR;\n  node [shape=circle, fontsize=10];\n"

/-- The text of a drawing. -/
def text (drawing : Drawing) : String :=
  header drawing.name ++ String.join (drawing.nodes.map Node.line)
    ++ String.join (drawing.edges.map Edge.line) ++ "\x7d\n"

/-- Draws the listed states of a network, or those of one rule. -/
def render (names : Names) (rule : Option Int) : NetM String := do
  let net ← NetM.network
  let drawn := states net rule
  let name := title net names rule
  NetM.report (.rendering drawn.length name)
  let drawing ← ofStates net names (name.getD "None") drawn
  return drawing.text

end Drawing

end GrammarNet
