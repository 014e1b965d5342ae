import Mathlib.Data.List.Basic
import GrammarNet.Proofs.Drawing.PlainNames
import GrammarNet.Proofs.Pushdown.WellFormed
import GrammarNet.Proofs.Workspace.Runs

/-!
# Drawings are read back

A reader that goes through the text of a drawing line by line finds the nodes and the edges again, if what the drawing says
is plain. So the text of a drawing with plain names tells which states of the network were drawn, and how they are connected.
-/

namespace GrammarNet

theorem isPrefixOf?_append (text beyond : List Char) : text.isPrefixOf? (text ++ beyond) = some beyond :=
  List.isPrefixOf?_eq_some_iff_append_eq.mpr rfl

/-! ## Numbers -/

/-- Reads the digits at the beginning of a text, and says what follows. -/
def readNat (text : List Char) : Option (Nat × List Char) :=
  match text.takeWhile Char.isDigit with
  | [] => none
  | digits => some (Nat.ofDigitChars 10 digits 0, text.dropWhile Char.isDigit)

/-- Reads a number at the beginning of a text, and says what follows. -/
def readInt (text : List Char) : Option (Int × List Char) :=
  if text.head? = some '-' then (readNat text.tail).map fun (n, beyond) => (-n, beyond)
  else (readNat text).map fun (n, beyond) => (n, beyond)

/-- Reads a number behind an opening. -/
def readIntBehind (opening : String) (text : List Char) : Option (Int × List Char) := do
  readInt (← opening.toList.isPrefixOf? text)

section Numbers

variable {beyond : List Char}

theorem readNat_toDigits (n : Nat) (ends : beyond.head?.any Char.isDigit = false) :
    readNat (Nat.toDigits 10 n ++ beyond) = some (n, beyond) := by
  have digits : ∀ c ∈ Nat.toDigits 10 n, c.isDigit = true := fun c member =>
    Nat.isDigit_of_mem_toDigits (by decide) (by decide) member
  have noMore : beyond.takeWhile Char.isDigit = [] ∧ beyond.dropWhile Char.isDigit = beyond := by
    cases beyond with
    | nil => exact ⟨rfl, rfl⟩
    | cons c rest =>
        have noDigit : c.isDigit = false := ends
        simp [noDigit]
  unfold readNat
  rw [List.takeWhile_append_of_pos digits, List.dropWhile_append_of_pos digits, noMore.1, noMore.2, List.append_nil]
  split
  next empty => exact absurd empty Nat.toDigits_ne_nil
  next => rw [Nat.ofDigitChars_toDigits (by decide) (by decide)]

theorem readInt_repr (x : Int) (ends : beyond.head?.any Char.isDigit = false) :
    readInt (x.repr.toList ++ beyond) = some (x, beyond) := by
  cases x with
  | ofNat n =>
      have text : (Int.ofNat n).repr.toList = Nat.toDigits 10 n := Nat.toList_repr
      have unsigned : (Nat.toDigits 10 n ++ beyond).head? ≠ some '-' := by
        intro sign
        rw [List.head?_append_of_ne_nil _ Nat.toDigits_ne_nil] at sign
        have digit := Nat.isDigit_of_mem_toDigits (by decide) (by decide) (List.mem_of_head? sign)
        exact absurd digit (by decide)
      rw [text, readInt, if_neg unsigned, readNat_toDigits n ends]
      rfl
  | negSucc n =>
      have text : (Int.negSucc n).repr.toList = '-' :: Nat.toDigits 10 (n + 1) := by
        show ("-" ++ (n + 1).repr).toList = _
        rw [String.toList_append, Nat.toList_repr]
        rfl
      rw [text, List.cons_append, readInt, if_pos List.head?_cons, List.tail_cons, readNat_toDigits (n + 1) ends]
      rfl

theorem readIntBehind_append (opening : String) (x : Int) (ends : beyond.head?.any Char.isDigit = false) :
    readIntBehind opening (opening.toList ++ (x.repr.toList ++ beyond)) = some (x, beyond) := by
  unfold readIntBehind
  rw [isPrefixOf?_append]
  exact readInt_repr x ends

end Numbers

/-! ## Labels -/

/-- Reads a label between quotes. -/
def readLabel (text : List Char) : Option (String × List Char) := do
  let (label, rest) ← unquote (← " [label=\"".toList.isPrefixOf? text)
  return (String.ofList label, rest)

theorem quotedChars_eq_self {label : List Char} (unquoted : '"' ∉ label) : quotedChars label = label := by
  induction label with
  | nil => rfl
  | cons c rest inductionHypothesis =>
      obtain ⟨first, later⟩ := List.ne_and_not_mem_of_not_mem_cons unquoted
      rw [quotedChars_cons_of_ne (Ne.symm first), inductionHypothesis later]

theorem PlainText.readLabel_append {label : String} (plain : PlainText label) (beyond : List Char) :
    readLabel (" [label=\"".toList ++ (quotedChars label.toList ++ '"' :: beyond)) = some (label, beyond) := by
  have held : unquote (quotedChars label.toList ++ '"' :: beyond) = some (label.toList, beyond) := by
    apply unquote_quotedChars_iff.mpr
    exact fun last => (plain _ (List.mem_of_getLast? last)).2.2 rfl
  unfold readLabel
  rw [isPrefixOf?_append]
  simp only [Option.bind_eq_bind, Option.bind_some, held, String.ofList_toList]
  rfl

theorem PlainText.quotedChars_eq {label : String} (plain : PlainText label) : quotedChars label.toList = label.toList :=
  quotedChars_eq_self fun quote => (plain _ quote).2.1 rfl

/-! ## Lines -/

/-- Goes through lines as long as they can be read, and says which are left. -/
def readWhile {α : Type} (read : List Char → Option α) : List (List Char) → List α × List (List Char)
  | [] => ([], [])
  | line :: rest =>
      match read line with
      | none => ([], line :: rest)
      | some a => (readWhile read rest).map (a :: ·) id

theorem readWhile_append
    {α : Type} {read : List Char → Option α} {row : α → List Char} {items : List α} {rest : List (List Char)}
    (reads : ∀ a ∈ items, read (row a) = some a) (ends : ∀ line ∈ rest.head?, read line = none) :
    readWhile read (items.map row ++ rest) = (items, rest) := by
  induction items with
  | nil =>
      cases rest with
      | nil => rfl
      | cons line others =>
          have unread : read line = none := ends line rfl
          simp [readWhile, unread]
  | cons a others inductionHypothesis =>
      obtain ⟨first, later⟩ := List.forall_mem_cons.mp reads
      simp [readWhile, first, inductionHypothesis later]

/-- Lines that hold no line break are those between the line breaks, and nothing follows the last one. -/
theorem splitOn_flatMap {rows : List (List Char)} (unbroken : ∀ row ∈ rows, '\n' ∉ row) :
    (rows.flatMap (· ++ ['\n'])).splitOn '\n' = rows ++ [[]] := by
  have joined : rows.flatMap (· ++ ['\n']) = ['\n'].intercalate (rows ++ [[]]) := by
    clear unbroken
    induction rows with
    | nil => rfl
    | cons row rest inductionHypothesis =>
        rw [List.flatMap_cons, inductionHypothesis, List.cons_append, List.intercalate_cons_of_ne_nil (by simp)]
  rw [joined, List.splitOn_intercalate]
  · intro row member
    rcases List.mem_append.mp member with before | last
    · exact unbroken row before
    · rw [List.mem_singleton.mp last]
      exact List.not_mem_nil
  · simp

/-- How an outline is written behind a label. -/
def Outline.text : Outline → String
  | .plain => ""
  | .box => ", shape=box"
  | .doubleCircle => ", shape=doublecircle"

/-- Reads what stands behind the label of a node. -/
def Outline.read (text : List Char) : Option Outline :=
  [Outline.plain, .box, .doubleCircle].find? fun outline => text = (outline.text ++ "];").toList

theorem Outline.read_text (outline : Outline) : read (outline.text ++ "];").toList = some outline := by
  cases outline <;> decide

namespace Node

/-- The characters of the line of a node, up to the line break. -/
def row (node : Node) : List Char :=
  "  s".toList ++ (node.number.repr.toList ++
    (" [label=\"".toList ++ (node.label.toList ++ '"' :: (node.outline.text ++ "];").toList)))

theorem toList_line_eq_row (node : Node) : node.line.toList = node.row ++ ['\n'] := by
  obtain ⟨number, label, outline⟩ := node
  cases outline <;> simp [line, row, Outline.text, toString_self]

theorem not_mem_row (node : Node) (plain : PlainText node.label) : '\n' ∉ node.row := by
  have label : '\n' ∉ node.label.toList := fun breaks => (plain _ breaks).1 rfl
  have number : '\n' ∉ node.number.repr.toList := not_mem_repr_int _ (by decide) (by decide)
  have outline : '\n' ∉ node.outline.text.toList := by cases node.outline <;> decide
  simp [row, label, number, outline]

/-- Reads the line of a node. -/
def read (line : List Char) : Option Node := do
  let (number, rest) ← readIntBehind "  s" line
  let (label, rest) ← readLabel rest
  return { number := number, label := label, outline := ← Outline.read rest }

theorem read_row (node : Node) (plain : PlainText node.label) : read node.row = some node := by
  unfold read row
  rw [readIntBehind_append "  s" node.number rfl, ← plain.quotedChars_eq]
  simp only [Option.bind_eq_bind, Option.bind_some, plain.readLabel_append, Outline.read_text]
  rfl

end Node

namespace Edge

/-- How it is written behind a label that an edge is dashed. -/
def style (dashed : Bool) : String := if dashed then ", style=dashed" else ""

/-- Reads what stands behind the label of an edge. -/
def readStyle (text : List Char) : Option Bool :=
  [false, true].find? fun dashed => text = (style dashed ++ "];").toList

theorem readStyle_style (dashed : Bool) : readStyle (style dashed ++ "];").toList = some dashed := by
  cases dashed <;> decide

/-- The characters of the line of an edge, up to the line break. -/
def row (edge : Edge) : List Char :=
  "  s".toList ++ (edge.source.repr.toList ++ (" -> s".toList ++ (edge.target.repr.toList ++
    (" [label=\"".toList ++ (quotedChars edge.label.toList ++ '"' :: (style edge.dashed ++ "];").toList)))))

theorem toList_line_eq_row (edge : Edge) : edge.line.toList = edge.row ++ ['\n'] := by
  simp [line, row, style, toString_self, toList_quote]

theorem not_mem_row (edge : Edge) (plain : PlainText edge.label) : '\n' ∉ edge.row := by
  have label : '\n' ∉ edge.label.toList := fun breaks => (plain _ breaks).1 rfl
  have number : ∀ x : Int, '\n' ∉ x.repr.toList := fun x => not_mem_repr_int x (by decide) (by decide)
  have style : '\n' ∉ (style edge.dashed).toList := by cases edge.dashed <;> decide
  simp [row, plain.quotedChars_eq, label, number, style]

/-- Reads the line of an edge. -/
def read (line : List Char) : Option Edge := do
  let (source, rest) ← readIntBehind "  s" line
  let (target, rest) ← readIntBehind " -> s" rest
  let (label, rest) ← readLabel rest
  return { source := source, target := target, label := label, dashed := ← readStyle rest }

theorem read_row (edge : Edge) (plain : PlainText edge.label) : read edge.row = some edge := by
  unfold read row
  rw [readIntBehind_append "  s" edge.source rfl]
  simp only [Option.bind_eq_bind, Option.bind_some]
  rw [readIntBehind_append " -> s" edge.target rfl]
  simp only [Option.bind_some, plain.readLabel_append, readStyle_style]
  rfl

/-- The line of an edge goes on differently behind the first number. -/
theorem node_read_row (edge : Edge) : Node.read edge.row = none := by
  unfold Node.read row
  rw [readIntBehind_append "  s" edge.source rfl]
  rfl

end Edge

/-! ## Drawings -/

namespace Drawing

/-- What a drawing says is plain. -/
structure Plain (drawing : Drawing) : Prop where
  name : PlainText drawing.name
  nodes : ∀ node ∈ drawing.nodes, PlainText node.label
  edges : ∀ edge ∈ drawing.edges, PlainText edge.label

/-- The lines before the nodes. -/
def headerRows (name : String) : List (List Char) :=
  ["digraph ".toList ++ (name.toList ++ " \x7b".toList), "  rankdir=LR;".toList,
    "  node [shape=circle, fontsize=10];".toList]

/-- The last line, behind which nothing follows. -/
def footerRows : List (List Char) := ["\x7d".toList, []]

/-- Reads the first line of a drawing. -/
def readName (line : List Char) : Option String := do
  let name ← " \x7b".toList.isSuffixOf? (← "digraph ".toList.isPrefixOf? line)
  return String.ofList name

/-- Reads a drawing, all of its text. -/
def read (text : String) : Option Drawing :=
  match text.toList.splitOn '\n' with
  | [] => none
  | first :: rest => do
      let name ← readName first
      let (nodes, beyond) := readWhile Node.read (rest.drop 2)
      let (edges, beyond) := readWhile Edge.read beyond
      if first :: rest.take 2 = headerRows name ∧ beyond = footerRows then
        return { name := name, nodes := nodes, edges := edges }
      else none

section Reading

variable {drawing : Drawing}

theorem toList_text (drawing : Drawing) :
    drawing.text.toList =
      (headerRows drawing.name ++ drawing.nodes.map Node.row ++ drawing.edges.map Edge.row ++ ["\x7d".toList]).flatMap
        (· ++ ['\n']) := by
  unfold text
  simp [header, headerRows, List.flatMap_map, Node.toList_line_eq_row, Edge.toList_line_eq_row, String.toList_join]

theorem Plain.splitOn_text (plain : drawing.Plain) :
    drawing.text.toList.splitOn '\n' =
      headerRows drawing.name ++ drawing.nodes.map Node.row ++ drawing.edges.map Edge.row ++ footerRows := by
  rw [toList_text, splitOn_flatMap]
  · simp [footerRows]
  · intro row member
    simp only [List.mem_append, List.mem_map, List.mem_singleton] at member
    rcases member with ((header | ⟨node, drawn, rfl⟩) | ⟨edge, drawn, rfl⟩) | rfl
    · have name : '\n' ∉ drawing.name.toList := fun breaks => (plain.name _ breaks).1 rfl
      simp only [headerRows, List.mem_cons, List.not_mem_nil, or_false] at header
      rcases header with rfl | rfl | rfl
      · simp [name]
      · decide
      · decide
    · exact node.not_mem_row (plain.nodes node drawn)
    · exact edge.not_mem_row (plain.edges edge drawn)
    · decide

theorem readName_headerRows (name : String) :
    readName ("digraph ".toList ++ (name.toList ++ " \x7b".toList)) = some name := by
  unfold readName
  have ended : " \x7b".toList.isSuffixOf? (name.toList ++ " \x7b".toList) = some name.toList :=
    List.isSuffixOf?_eq_some_iff_append_eq.mpr rfl
  rw [isPrefixOf?_append]
  simp only [Option.bind_eq_bind, Option.bind_some, ended, String.ofList_toList]
  rfl

theorem Plain.read_text (plain : drawing.Plain) : read drawing.text = some drawing := by
  have edges : readWhile Edge.read (drawing.edges.map Edge.row ++ footerRows) = (drawing.edges, footerRows) := by
    apply readWhile_append
    · exact fun edge drawn => edge.read_row (plain.edges edge drawn)
    · rintro line ⟨⟩
      rfl
  have nodes :
      readWhile Node.read (drawing.nodes.map Node.row ++ (drawing.edges.map Edge.row ++ footerRows)) =
        (drawing.nodes, drawing.edges.map Edge.row ++ footerRows) := by
    apply readWhile_append
    · exact fun node drawn => node.read_row (plain.nodes node drawn)
    -- The nodes end at the first edge, or at the footer if there is none.
    · cases drawing.edges with
      | nil =>
          rintro line ⟨⟩
          rfl
      | cons edge others =>
          rintro line ⟨⟩
          exact edge.node_read_row
  unfold read
  rw [plain.splitOn_text, List.append_assoc, List.append_assoc]
  simp only [headerRows, List.cons_append, List.nil_append, readName_headerRows, Option.bind_eq_bind, Option.bind_some,
    List.drop_succ_cons, List.drop_zero, nodes, edges, List.take_succ_cons, List.take_zero]
  simp

/-- The text determines the drawing. -/
theorem Plain.eq_of_text_eq {other : Drawing} (plain : drawing.Plain) (alsoPlain : other.Plain)
    (same : drawing.text = other.text) : drawing = other := by
  have reads := plain.read_text
  rw [same, alsoPlain.read_text] at reads
  exact (Option.some.inj reads).symm

end Reading

end Drawing

/-! ## Drawings of networks -/

namespace State

/-- The label that is due to a state: its number, and the name of its rule at both ends of the rule. -/
def caption (names : Names) (s : State) : String :=
  if s.kind = .ruleStart then s!"{s.number}: {names.shownRule s.rule} start"
  else if s.kind = .ruleStop then s!"{s.number}: {names.shownRule s.rule} stop"
  else toString s.number

/-- The outline that is due to a state: a double one to the stop of a rule, a box to any other state with a decision number
from zero on. -/
def outline (s : State) : Outline :=
  if s.kind = .ruleStop then .doubleCircle
  else if ∃ number ∈ s.attributes.decision.join, 0 ≤ number then .box
  else .plain

theorem plainText_caption {names : Names} (plain : names.Plain) (s : State) : PlainText (s.caption names) := by
  unfold caption
  split
  · simp only [toString_self, toString_int, plainText_append_iff, plainText_repr_int, plain.shownRule]
    decide
  split
  · simp only [toString_self, toString_int, plainText_append_iff, plainText_repr_int, plain.shownRule]
    decide
  · exact plainText_repr_int s.number

theorem outline_of_hasDecision
    {s : State} {decided : Bool} (goesOn : s.kind ≠ .ruleStop) (decision : s.hasDecision = .ok decided) :
    s.outline = if decided then .box else .plain := by
  unfold hasDecision at decision
  rcases stored : s.attributes.decision with _ | _ | number
  · rw [stored] at decision
    obtain rfl := Except.ok.inj decision
    simp [outline, goesOn, stored]
  · rw [stored] at decision
    contradiction
  · rw [stored] at decision
    obtain rfl := Except.ok.inj decision
    simp [outline, goesOn, stored]

end State

section Drawn

variable {net : Network} {names : Names} {s : State} {t : Transition}

theorem Node.eq_of_ofState {node : Node} (drawn : ofState names s = .ok node) :
    node = { number := s.number, label := s.caption names, outline := s.outline } := by
  unfold ofState at drawn
  by_cases stops : s.kind = .ruleStop
  -- The decision number of the stop of a rule is not asked for.
  · simp only [stops, if_true] at drawn
    obtain rfl := Except.ok.inj drawn
    simp [State.caption, State.outline, stops]
  · rw [if_neg stops] at drawn
    cases decision : s.hasDecision with
    | error fault =>
        rw [decision] at drawn
        contradiction
    | ok decided =>
        rw [decision] at drawn
        obtain rfl := Except.ok.inj drawn
        rw [State.outline_of_hasDecision stops decision, State.caption]
        congr 1
        split
        next starts => rw [if_pos starts]
        next ends => exact absurd ends stops
        next goesOn _ => rw [if_neg goesOn, if_neg stops]

theorem Edge.of_ofTransition {edge : Edge} (drawn : ofTransition net names s t = .ok edge) :
    (edge.source, edge.target, edge.dashed) = (s.number, (net.state t.target).number, t.isEpsilon) ∧
      names.label t = .ok edge.label := by
  unfold ofTransition at drawn
  cases shown : names.label t with
  | error fault =>
      rw [shown] at drawn
      contradiction
  | ok label =>
      rw [shown] at drawn
      obtain rfl := Except.ok.inj drawn
      exact ⟨rfl, rfl⟩

end Drawn

namespace Drawing

/-- The states that a drawing shows: those in the slots, in their order, that pass the filter. -/
def shown (net : Network) (rule : Option Int) : List StateId :=
  net.listed.filter fun id => rule = none ∨ rule = some (net.state id).rule

theorem states_eq (net : Network) (rule : Option Int) : states net rule = (shown net rule).map net.state := by
  have passes : ∀ s : State, (rule.all fun index => s.rule == index) = decide (rule = none ∨ rule = some s.rule) := by
    intro s
    cases rule with
    | none => rfl
    | some index =>
        simp only [Option.all_some, reduceCtorEq, Option.some.injEq, false_or]
        rw [Bool.eq_iff_iff, beq_iff_eq, decide_eq_true_eq]
        exact eq_comm
  have listed : (net.slots.toList.filterMap fun slot => slot.map net.state) = net.listed.map net.state :=
    List.map_filterMap.symm
  unfold states shown
  simp only [passes, listed]
  exact List.filter_map

/-- The nodes and the edges of a drawing are those of the states, in their order, and plain names make it plain. -/
theorem of_ofStates
    {net : Network} {names : Names} {name : String} {states : List State} {drawing : Drawing}
    (drawn : ofStates net names name states = .ok drawing) :
    drawing.name = name ∧
      drawing.nodes.map (fun node => (node.number, node.outline)) = states.map (fun s => (s.number, s.outline)) ∧
      drawing.edges.map (fun edge => (edge.source, edge.target, edge.dashed)) =
        states.flatMap (fun s => s.transitions.map fun t => (s.number, (net.state t.target).number, t.isEpsilon)) ∧
      (names.Plain → PlainText name → drawing.Plain) := by
  unfold ofStates at drawn
  cases nodesDrawn : states.mapM (Node.ofState names) with
  | error fault =>
      rw [nodesDrawn] at drawn
      contradiction
  | ok nodes =>
      rw [nodesDrawn] at drawn
      cases edgesDrawn : states.mapM fun s => s.transitions.mapM (Edge.ofTransition net names s) with
      | error fault =>
          rw [edgesDrawn] at drawn
          contradiction
      | ok edges =>
          rw [edgesDrawn] at drawn
          obtain rfl := Except.ok.inj drawn
          refine ⟨rfl, ?_, ?_, fun plain titled => ⟨titled, ?_, ?_⟩⟩
          · apply map_eq_of_mapM nodesDrawn
            intro s node shown
            rw [Node.eq_of_ofState shown]
          · rw [List.map_flatten, List.flatMap_def]
            refine congrArg List.flatten (map_eq_of_mapM edgesDrawn fun s ofState shown => ?_)
            exact map_eq_of_mapM shown fun t edge drawn => (Edge.of_ofTransition drawn).1
          · apply forall_of_mapM (P := fun node => PlainText node.label) nodesDrawn
            intro s _ node shown
            rw [Node.eq_of_ofState shown]
            exact State.plainText_caption plain s
          · show ∀ edge ∈ edges.flatten, PlainText edge.label
            rw [List.forall_mem_flatten]
            apply forall_of_mapM (P := fun ofState => ∀ edge ∈ ofState, PlainText edge.label) edgesDrawn
            intro s _ ofState shown
            exact forall_of_mapM shown fun t _ edge drawn => plain.label (Edge.of_ofTransition drawn).2

theorem plainText_title {names : Names} (plain : names.Plain) (net : Network) (rule : Option Int) :
    PlainText ((title net names rule).getD "None") := by
  cases rule with
  | none =>
      show PlainText net.kind.name
      cases net.kind <;> decide
  | some index => exact plain.shownRule index

/-- The text that is rendered with plain names has a header, a line for each state shown, a line for each of their
transitions, and a footer. The line of a node is read as the number and the outline of its state, and the line of an edge as
the numbers of both ends and whether nothing is consumed on the way; so the whole text is read as the graph that was drawn. -/
theorem render_reads_back
    (work : Workspace) (names : Names) (plain : names.Plain) (rule : Option Int) (text : String)
    (rendered : ((render names rule).runOn work).1 = .ok text) :
    ∃ (drawing : Drawing) (nodeLines edgeLines : List (List Char)),
      drawing.nodes.map (fun node => (node.number, node.outline)) =
        (shown work.net rule).map (fun id => ((work.net.state id).number, (work.net.state id).outline)) ∧
      drawing.edges.map (fun edge => (edge.source, edge.target, edge.dashed)) =
        (shown work.net rule).flatMap (fun id => (work.net.state id).transitions.map fun t =>
          ((work.net.state id).number, (work.net.state t.target).number, t.isEpsilon)) ∧
      text.toList.splitOn '\n' =
        headerRows ((title work.net names rule).getD "None") ++ nodeLines ++ edgeLines ++ footerRows ∧
      nodeLines.map Node.read = drawing.nodes.map some ∧
      edgeLines.map Edge.read = drawing.edges.map some ∧
      read text = some drawing := by
  unfold render at rendered
  simp only [NetM.runOn_bind, NetM.runOn_network, NetM.runOn_report, NetM.runOn_lift] at rendered
  cases drawn : ofStates work.net names ((title work.net names rule).getD "None") (states work.net rule) with
  | error fault =>
      rw [drawn] at rendered
      contradiction
  | ok drawing =>
      rw [drawn] at rendered
      obtain rfl := Except.ok.inj rendered
      obtain ⟨name, nodes, edges, sound⟩ := of_ofStates drawn
      have drawingPlain : drawing.Plain := sound plain (plainText_title plain work.net rule)
      rw [states_eq] at nodes edges
      refine ⟨drawing, drawing.nodes.map Node.row, drawing.edges.map Edge.row, ?_, ?_, ?_, ?_, ?_, drawingPlain.read_text⟩
      · rw [nodes, List.map_map]
        rfl
      · rw [edges, List.flatMap_map]
      · rw [drawingPlain.splitOn_text, name]
      · rw [List.map_map]
        exact List.map_congr_left fun node drawn => node.read_row (drawingPlain.nodes node drawn)
      · rw [List.map_map]
        exact List.map_congr_left fun edge drawn => edge.read_row (drawingPlain.edges edge drawn)

/-- The network of `r : 't'? ;`. -/
def optionalToken : Network :=
  .ofStates 1 [
    { kind := .ruleStart, rule := 0, transitions := [⟨1, .epsilon (-1)⟩] },
    { kind := .basicBlockStart, rule := 0, transitions := [⟨2, .epsilon (-1)⟩, ⟨3, .epsilon (-1)⟩],
      attributes := { decision := some (some 0) } },
    { kind := .basic, rule := 0, transitions := [⟨3, .atom 1 (.single 1)⟩] },
    { kind := .blockEnd, rule := 0, transitions := [⟨4, .epsilon (-1)⟩] },
    { kind := .ruleStop, rule := 0 }]

/-- The drawing of its rule. -/
theorem render_reads_back_optionalToken :
    ∃ text drawing,
      ((render { rules := [some "r"], symbols := [none, some "'t'"] } (some 0)).runOn ⟨optionalToken, []⟩).1 = .ok text ∧
      read text = some drawing ∧
      drawing.nodes.map (fun node => (node.number, node.outline)) =
        [(0, .plain), (1, .box), (2, .plain), (3, .plain), (4, .doubleCircle)] ∧
      drawing.edges.map (fun edge => (edge.source, edge.target, edge.dashed)) =
        [(0, 1, true), (1, 2, true), (1, 3, true), (2, 3, false), (3, 4, true)] := by
  have plain : Names.Plain { rules := [some "r"], symbols := [none, some "'t'"] } := ⟨by decide, by decide⟩
  obtain ⟨drawing, _, _, nodes, edges, _, _, _, reads⟩ := render_reads_back ⟨optionalToken, []⟩ _ plain (some 0) _ rfl
  exact ⟨_, drawing, rfl, reads, nodes, edges⟩

end Drawing

end GrammarNet
