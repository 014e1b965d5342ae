import GrammarNet.Drawing

/-!
# Quoted labels

The label of an edge stands between quotes in the text of a drawing, with a backslash before each quote of its own. A
reader of quoted strings takes a backslash right before a quote, and the quote, for a quote within the string, and ends
at the first other quote. So it reads the label back, and ends where the label ends, exactly if the label does not end in
a backslash, which would stand right before the closing quote.
-/

namespace GrammarNet

/-- Reads a quoted string behind its opening quote: what it holds, and what follows its closing quote if there is one. -/
def unquote : List Char → Option (List Char × List Char)
  | [] => none
  | '\\' :: '"' :: rest => (unquote rest).map fun (held, beyond) => ('"' :: held, beyond)
  | '"' :: rest => some ([], rest)
  | c :: rest => (unquote rest).map fun (held, beyond) => (c :: held, beyond)

/-- The characters of a label as they are quoted. -/
def quotedChars (label : List Char) : List Char := label.flatMap fun c => if c = '"' then ['\\', '"'] else [c]

/-- The last character of the text is a backslash. -/
def EndsInBackslash (text : String) : Prop := text.toList.getLast? = some '\\'

instance (text : String) : Decidable (EndsInBackslash text) := inferInstanceAs (Decidable (_ = _))

section Reading

variable {label tail beyond : List Char} {c : Char}

theorem unquote_plain (noQuote : c ≠ '"') (apart : c = '\\' → tail.head? ≠ some '"') :
    unquote (c :: tail) = (unquote tail).map fun (held, beyond) => (c :: held, beyond) := by
  rw [unquote]
  · rintro rest backslash rfl
    exact apart backslash rfl
  · exact noQuote

theorem quotedChars_cons_of_ne (noQuote : c ≠ '"') : quotedChars (c :: label) = c :: quotedChars label := by
  unfold quotedChars
  rw [List.flatMap_cons, if_neg noQuote]
  rfl

/-- No quote stands first in what is quoted, since a backslash would come before it. -/
theorem head?_quotedChars_append_ne (ends : label = [] → tail.head? ≠ some '"') :
    (quotedChars label ++ tail).head? ≠ some '"' := by
  cases label with
  | nil => exact ends rfl
  | cons c rest =>
      by_cases quote : c = '"'
      · have first : (quotedChars (c :: rest) ++ tail).head? = some '\\' := by
          rw [quote]
          rfl
        rw [first]
        decide
      · rw [quotedChars_cons_of_ne quote]
        exact fun same => quote (Option.some.inj same)

/-- A reader that comes to the quoted characters reads them back, and then goes on behind them, unless a backslash at
their end stands before a quote. -/
theorem unquote_quotedChars_append (apart : label.getLast? = some '\\' → tail.head? ≠ some '"') :
    unquote (quotedChars label ++ tail) = (unquote tail).map fun (held, beyond) => (label ++ held, beyond) := by
  induction label with
  | nil => simp [quotedChars]
  | cons c rest inductionHypothesis =>
      have later : rest.getLast? = some '\\' → tail.head? ≠ some '"' := by
        intro last
        apply apart
        rw [List.getLast?_cons, last]
        rfl
      have reads := inductionHypothesis later
      by_cases quote : c = '"'
      · subst quote
        show (unquote (quotedChars rest ++ tail)).map _ = _
        rw [reads, Option.map_map]
        rfl
      · have free : c = '\\' → (quotedChars rest ++ tail).head? ≠ some '"' := by
          intro backslash
          apply head?_quotedChars_append_ne
          intro empty
          apply apart
          rw [backslash, empty]
          rfl
        rw [quotedChars_cons_of_ne quote, List.cons_append, unquote_plain quote free, reads, Option.map_map]
        rfl

theorem unquote_quotedChars_iff :
    unquote (quotedChars label ++ '"' :: beyond) = some (label, beyond) ↔ label.getLast? ≠ some '\\' := by
  constructor
  · intro reads last
    obtain ⟨rest, same⟩ := List.getLast?_eq_some_iff.mp last
    have unquoted : quotedChars label ++ '"' :: beyond = quotedChars rest ++ '\\' :: '"' :: beyond := by
      rw [same]
      simp [quotedChars]
    have free : ('\\' :: '"' :: beyond).head? ≠ some '"' := by
      show some '\\' ≠ some '"'
      decide
    rw [unquoted, unquote_quotedChars_append fun _ => free, same] at reads
    -- The backslash and the closing quote are read as a quote within the string.
    cases behind : unquote beyond with
    | none => simp [unquote, behind] at reads
    | some read => simp [unquote, behind] at reads
  · intro inside
    rw [unquote_quotedChars_append fun last => absurd last inside]
    simp [unquote]

end Reading

/-! ## Numbers and names -/

theorem toString_self (s : String) : toString s = s := rfl

theorem mem_repr_int {x : Int} {c : Char} (member : c ∈ x.repr.toList) : c.isDigit = true ∨ c = '-' := by
  have digits : ∀ n : Nat, c ∈ n.repr.toList → c.isDigit = true := by
    intro n inside
    rw [Nat.repr_eq_ofList_toDigits, String.toList_ofList] at inside
    exact Nat.isDigit_of_mem_toDigits (by decide) (by decide) inside
  cases x with
  | ofNat n => exact Or.inl (digits n member)
  | negSucc n =>
      have signed : c ∈ ("-" ++ (n + 1).repr).toList := member
      rw [String.toList_append] at signed
      rcases List.mem_append.mp signed with sign | inside
      · exact Or.inr (List.mem_singleton.mp sign)
      · exact Or.inl (digits (n + 1) inside)

theorem not_mem_repr_int {c : Char} (x : Int) (noDigit : c.isDigit = false) (noSign : c ≠ '-') :
    c ∉ x.repr.toList := by
  intro member
  rcases mem_repr_int member with digit | sign
  · exact Bool.noConfusion (digit.symm.trans noDigit)
  · exact noSign sign

/-- The text holds no line break, no quote and no backslash. -/
def PlainText (text : String) : Prop := ∀ c ∈ text.toList, c ≠ '\n' ∧ c ≠ '"' ∧ c ≠ '\\'

-- Named, for all characters could be gone through as well.
instance (text : String) : Decidable (PlainText text) :=
  List.decidableBAll (fun c => c ≠ '\n' ∧ c ≠ '"' ∧ c ≠ '\\') text.toList

section PlainText

variable {text more : String}

@[simp]
theorem plainText_append_iff : PlainText (text ++ more) ↔ PlainText text ∧ PlainText more := by
  unfold PlainText
  rw [String.toList_append]
  exact List.forall_mem_append

theorem toString_int (x : Int) : toString x = x.repr := rfl

@[simp]
theorem plainText_repr_int (x : Int) : PlainText x.repr := by
  intro c member
  rcases mem_repr_int member with digit | rfl
  · refine ⟨?_, ?_, ?_⟩ <;> rintro rfl <;> exact absurd digit (by decide)
  · decide

end PlainText

theorem not_endsInBackslash_of_not_mem {text : String} (plain : '\\' ∉ text.toList) : ¬ EndsInBackslash text :=
  fun last => plain (List.mem_of_getLast? last)

namespace Names

variable {names : Names} {t : Transition} {label : String}

theorem exists_set_eq {s : RangeSet} (drawn : names.set s = .ok label) : ∃ body, label = body ++ "\x7d" := by
  unfold set at drawn
  cases parts : s.ranges.mapM names.range with
  | error fault =>
      rw [parts] at drawn
      contradiction
  | ok shown =>
      rw [parts] at drawn
      exact ⟨_, (Except.ok.inj drawn).symm⟩

theorem not_endsInBackslash_brace (body : String) : ¬ EndsInBackslash (body ++ "\x7d") := by
  unfold EndsInBackslash
  rw [String.toList_append, List.getLast?_append]
  exact fun same => absurd (Option.some.inj same) (by decide)

/-- What is said of a transition without the tables is plain. -/
theorem plainText_text (kind : TransitionKind) : PlainText (kind.text?.getD kind.className) := by
  cases kind with
  | plain | abstractPredicate | wildcard => decide
  | epsilon | set | notSet =>
      simp only [TransitionKind.text?, TransitionKind.className, Option.getD_some, Option.getD_none]
      decide
  | atom symbol set => exact plainText_repr_int symbol
  | range | rule | predicate | precedence | action =>
      simp only [TransitionKind.text?, toString_self, toString_int, Option.getD_some, plainText_append_iff,
        plainText_repr_int]
      decide

theorem mem_of_listed {α : Type} {table : List α} {i : Int} {entry : α} (found : listed table i = some entry) :
    entry ∈ table := by
  unfold listed at found
  split at found
  · exact List.mem_of_getElem? found
  · contradiction

theorem mem_symbols_of_endsInBackslash {x : Symbol} (ends : EndsInBackslash (names.symbol x)) :
    some (names.symbol x) ∈ names.symbols := by
  have number : ¬ EndsInBackslash (toString x) :=
    not_endsInBackslash_of_not_mem (not_mem_repr_int x (by decide) (by decide))
  unfold symbol at ends ⊢
  split at ends
  · exact absurd ends (by decide)
  next proper =>
    split at ends
    · exact absurd ends (by decide)
    next consumed =>
      rw [if_neg proper, if_neg consumed]
      cases found : (listed names.symbols x).join with
      | none =>
          rw [found] at ends
          exact absurd ends number
      | some name =>
          rw [found] at ends
          dsimp only at ends ⊢
          split at ends
          · exact absurd ends number
          next shown =>
            rw [if_neg shown]
            exact mem_of_listed (Option.join_eq_some_iff.mp found)

theorem mem_rules_of_endsInBackslash {index : Int} (named : names.rule index = some label)
    (ends : EndsInBackslash label) : some label ∈ names.rules := by
  unfold rule at named
  cases found : listed names.rules index with
  | none =>
      rw [found] at named
      obtain rfl := Option.some.inj named
      refine absurd ends (not_endsInBackslash_of_not_mem ?_)
      have number : '\\' ∉ index.repr.toList := not_mem_repr_int index (by decide) (by decide)
      simp [String.toList_append, number, toString_self]
  | some entry =>
      rw [found] at named
      have same : entry = some label := named
      exact same ▸ mem_of_listed found

/-- What a label is: the name of a rule, the name of a symbol, the text of a set, or a text that no table is read for. -/
theorem label_cases (drawn : names.label t = .ok label) :
    (∃ index precedence follow, t.kind = .rule index precedence follow ∧ names.rule index = some label) ∨
      (∃ symbol set, t.kind = .atom symbol set ∧ label = names.symbol symbol) ∨
      (∃ body, label = body ++ "\x7d") ∨ label = t.kind.text?.getD t.kind.className := by
  unfold Names.label at drawn
  cases kind : t.kind with
  | rule index precedence follow =>
      simp only [kind] at drawn
      split at drawn
      next named =>
        obtain rfl := Except.ok.inj drawn
        exact Or.inl ⟨index, precedence, follow, rfl, named⟩
      · contradiction
  | atom symbol set =>
      simp only [kind] at drawn
      exact Or.inr (Or.inl ⟨symbol, set, rfl, (Except.ok.inj drawn).symm⟩)
  | set label =>
      simp only [kind] at drawn
      exact Or.inr (Or.inr (Or.inl (exists_set_eq drawn)))
  | notSet label =>
      simp only [kind] at drawn
      cases shown : names.set label.set with
      | error fault =>
          rw [shown] at drawn
          contradiction
      | ok text =>
          rw [shown] at drawn
          obtain ⟨body, rfl⟩ := exists_set_eq shown
          obtain rfl := Except.ok.inj drawn
          exact Or.inr (Or.inr (Or.inl ⟨"~" ++ body, (String.append_assoc).symm⟩))
  | plain | abstractPredicate | epsilon | wildcard | range | predicate | precedence | action =>
      simp only [kind] at drawn
      exact Or.inr (Or.inr (Or.inr (Except.ok.inj drawn).symm))

/-- A label that ends in a backslash is the name that a table has for a rule, or for the symbol of an atom. -/
theorem named_of_endsInBackslash (drawn : names.label t = .ok label) (ends : EndsInBackslash label) :
    (t.isRule = true ∧ some label ∈ names.rules) ∨
      ((∃ symbol set, t.kind = .atom symbol set) ∧ some label ∈ names.symbols) := by
  rcases label_cases drawn with
    ⟨index, precedence, follow, kind, named⟩ | ⟨symbol, set, kind, rfl⟩ | ⟨body, rfl⟩ | rfl
  · refine Or.inl ⟨?_, mem_rules_of_endsInBackslash named ends⟩
    rw [Transition.isRule, kind]
    rfl
  · exact Or.inr ⟨⟨symbol, set, kind⟩, mem_symbols_of_endsInBackslash ends⟩
  · exact absurd ends (not_endsInBackslash_brace body)
  · exact absurd ends (not_endsInBackslash_of_not_mem fun member => (plainText_text t.kind _ member).2.2 rfl)

end Names

namespace Edge

theorem toList_quote (label : String) : (quote label).toList = quotedChars label.toList :=
  String.toList_ofList

/-- What stands before the quotes of the label. -/
def opening (edge : Edge) : String := s!"  s{edge.source} -> s{edge.target} [label="

/-- What stands behind the quotes of the label. -/
def closing (edge : Edge) : String := (if edge.dashed then ", style=dashed" else "") ++ "];\n"

theorem toList_line (edge : Edge) :
    edge.line.toList =
      edge.opening.toList ++ '"' :: ((quote edge.label).toList ++ '"' :: edge.closing.toList) := by
  simp [line, opening, closing, String.toList_append, toString_self]

theorem not_mem_opening (edge : Edge) : '"' ∉ edge.opening.toList := by
  have number : ∀ x : Int, '"' ∉ x.repr.toList := fun x => not_mem_repr_int x (by decide) (by decide)
  simp [opening, String.toList_append, number, toString_self]

/-- An edge holds the label of its transition between quotes, the first of its line. A reader of quoted strings that
starts behind the opening quote, whatever the drawing says further on, reads the label and ends at the closing quote
exactly if the label does not end in a backslash, as only a name that a table has for a rule or for the symbol of an atom
can. -/
theorem label_reads_back_iff (net : Network) (names : Names) (s : State) (t : Transition) (edge : Edge)
    (drawn : ofTransition net names s t = .ok edge) (further : List Char) :
    names.label t = .ok edge.label ∧
      edge.line.toList =
        edge.opening.toList ++ '"' :: ((quote edge.label).toList ++ '"' :: edge.closing.toList) ∧
      '"' ∉ edge.opening.toList ∧
      (unquote ((quote edge.label).toList ++ '"' :: (edge.closing.toList ++ further)) =
          some (edge.label.toList, edge.closing.toList ++ further) ↔ ¬ EndsInBackslash edge.label) ∧
      (EndsInBackslash edge.label →
        (t.isRule = true ∧ some edge.label ∈ names.rules) ∨
          ((∃ symbol set, t.kind = .atom symbol set) ∧ some edge.label ∈ names.symbols)) := by
  have labelled : names.label t = .ok edge.label := by
    unfold ofTransition at drawn
    cases shown : names.label t with
    | error fault =>
        rw [shown] at drawn
        contradiction
    | ok label =>
        rw [shown] at drawn
        obtain rfl := Except.ok.inj drawn
        rfl
  refine ⟨labelled, edge.toList_line, edge.not_mem_opening, ?_, Names.named_of_endsInBackslash labelled⟩
  rw [toList_quote]
  exact unquote_quotedChars_iff

/-- The name holds a quote and a backslash that is not its last character. -/
theorem label_reads_back_iff_quotedName :
    ∃ edge, ofTransition { kind := .parser, maxSymbol := 1 } { symbols := [none, some "a\"\\b"] } default
        { target := 0, kind := .atom 1 default } = .ok edge ∧
      unquote ((quote edge.label).toList ++ '"' :: (edge.closing.toList ++ [])) =
        some ("a\"\\b".toList, edge.closing.toList ++ []) := by
  refine ⟨_, rfl, ?_⟩
  exact (label_reads_back_iff { kind := .parser, maxSymbol := 1 } { symbols := [none, some "a\"\\b"] } default
    { target := 0, kind := .atom 1 default } _ rfl []).2.2.2.1.mpr (by decide)

/-- The only symbol is named with a backslash, and the string that starts with it has no end. -/
theorem label_not_reads_back_backslash :
    ∃ edge, ofTransition { kind := .parser, maxSymbol := 1 } { symbols := [some "<INVALID>", some "\\"] } default
        { target := 0, kind := .atom 1 default } = .ok edge ∧
      unquote ((quote edge.label).toList ++ '"' :: edge.closing.toList) = none :=
  ⟨_, rfl, by decide⟩

end Edge

end GrammarNet
