import GrammarNet.Proofs.Drawing.Quoting

/-!
# Drawings with plain names

A plain text stays within its line and means itself between quotes. If the names in the tables are plain, so is all that a
drawing says.
-/

namespace GrammarNet

theorem plainText_intercalate
    {separator : String} {parts : List String} (apart : PlainText separator) (each : ∀ part ∈ parts, PlainText part) :
    PlainText (separator.intercalate parts) := by
  induction parts with
  | nil => exact nofun
  | cons part others inductionHypothesis =>
      obtain ⟨first, later⟩ := List.forall_mem_cons.mp each
      cases others with
      | nil => exact first
      | cons next rest =>
          rw [String.intercalate_cons_cons, plainText_append_iff, plainText_append_iff]
          exact ⟨⟨first, apart⟩, inductionHypothesis later⟩

/-! ## Lists of outcomes -/

section Outcomes

variable {α β γ ε : Type} {f : α → Except ε β} {items : List α} {results : List β}

theorem exists_of_mapM_cons {a : α} (mapped : (a :: items).mapM f = .ok results) :
    ∃ b others, f a = .ok b ∧ items.mapM f = .ok others ∧ results = b :: others := by
  rw [List.mapM_cons] at mapped
  cases first : f a with
  | error fault =>
      rw [first] at mapped
      contradiction
  | ok b =>
      rw [first] at mapped
      cases later : items.mapM f with
      | error fault =>
          rw [later] at mapped
          contradiction
      | ok others =>
          rw [later] at mapped
          exact ⟨b, others, rfl, rfl, (Except.ok.inj mapped).symm⟩

theorem forall_of_mapM
    {P : β → Prop} (mapped : items.mapM f = .ok results) (each : ∀ a ∈ items, ∀ b, f a = .ok b → P b) :
    ∀ b ∈ results, P b := by
  induction items generalizing results with
  | nil =>
      obtain rfl : [] = results := Except.ok.inj mapped
      exact List.forall_mem_nil P
  | cons a rest inductionHypothesis =>
      obtain ⟨b, others, first, later, rfl⟩ := exists_of_mapM_cons mapped
      obtain ⟨here, beyond⟩ := List.forall_mem_cons.mp each
      exact List.forall_mem_cons.mpr ⟨here b first, inductionHypothesis later beyond⟩

/-- What each result says of its item, the results say of the items one by one. -/
theorem map_eq_of_mapM
    {g : β → γ} {h : α → γ} (mapped : items.mapM f = .ok results) (each : ∀ a b, f a = .ok b → g b = h a) :
    results.map g = items.map h := by
  induction items generalizing results with
  | nil =>
      obtain rfl : [] = results := Except.ok.inj mapped
      rfl
  | cons a rest inductionHypothesis =>
      obtain ⟨b, others, first, later, rfl⟩ := exists_of_mapM_cons mapped
      rw [List.map_cons, List.map_cons, each a b first, inductionHypothesis later]

end Outcomes

namespace Names

/-- All names in the tables are plain. -/
structure Plain (names : Names) : Prop where
  rules : ∀ entry ∈ names.rules, ∀ name ∈ entry, PlainText name
  symbols : ∀ entry ∈ names.symbols, ∀ name ∈ entry, PlainText name

section Plain

variable {names : Names} {text : String}

theorem Plain.rule (plain : names.Plain) {index : Int} (named : names.rule index = some text) : PlainText text := by
  unfold Names.rule at named
  cases found : listed names.rules index with
  | none =>
      rw [found] at named
      obtain rfl := Option.some.inj named
      simp only [toString_self, toString_int, plainText_append_iff, plainText_repr_int]
      decide
  | some entry =>
      rw [found] at named
      obtain rfl : entry = some text := named
      exact plain.rules (some text) (mem_of_listed found) text rfl

theorem Plain.shownRule (plain : names.Plain) (index : Int) : PlainText (names.shownRule index) := by
  unfold Names.shownRule
  cases named : names.rule index with
  | none => decide
  | some name => exact plain.rule named

theorem Plain.symbol (plain : names.Plain) (x : Symbol) : PlainText (names.symbol x) := by
  have number : PlainText (toString x) := plainText_repr_int x
  unfold Names.symbol
  split
  · decide
  split
  · decide
  split
  next name found =>
    split
    · exact number
    · exact plain.symbols (some name) (mem_of_listed (Option.join_eq_some_iff.mp found)) name rfl
  · exact number

theorem Plain.range (plain : names.Plain) {r : Range} (shown : names.range r = .ok text) : PlainText text := by
  unfold Names.range at shown
  split at shown
  · contradiction
  split at shown
  · obtain rfl := Except.ok.inj shown
    exact plain.symbol r.start
  · obtain rfl := Except.ok.inj shown
    rw [plainText_append_iff, plainText_append_iff]
    exact ⟨⟨plain.symbol r.start, by decide⟩, plain.symbol (r.stop - 1)⟩

theorem Plain.set (plain : names.Plain) {s : RangeSet} (shown : names.set s = .ok text) : PlainText text := by
  unfold Names.set at shown
  cases parts : s.ranges.mapM names.range with
  | error fault =>
      rw [parts] at shown
      contradiction
  | ok texts =>
      rw [parts] at shown
      obtain rfl := Except.ok.inj shown
      rw [plainText_append_iff, plainText_append_iff]
      refine ⟨⟨by decide, plainText_intercalate (by decide) ?_⟩, by decide⟩
      exact forall_of_mapM parts fun r _ text shown => plain.range shown

theorem Plain.label (plain : names.Plain) {t : Transition} (drawn : names.label t = .ok text) : PlainText text := by
  unfold Names.label at drawn
  cases kind : t.kind with
  | rule index precedence follow =>
      simp only [kind] at drawn
      split at drawn
      next named =>
        obtain rfl := Except.ok.inj drawn
        exact plain.rule named
      · contradiction
  | atom symbol set =>
      simp only [kind] at drawn
      obtain rfl := Except.ok.inj drawn
      exact plain.symbol symbol
  | set label =>
      simp only [kind] at drawn
      exact plain.set drawn
  | notSet label =>
      simp only [kind] at drawn
      cases shown : names.set label.set with
      | error fault =>
          rw [shown] at drawn
          contradiction
      | ok body =>
          rw [shown] at drawn
          obtain rfl := Except.ok.inj drawn
          exact plainText_append_iff.mpr ⟨by decide, plain.set shown⟩
  | plain | abstractPredicate | epsilon | wildcard | range | predicate | precedence | action =>
      simp only [kind] at drawn
      obtain rfl := Except.ok.inj drawn
      exact plainText_text _

end Plain

end Names

end GrammarNet
