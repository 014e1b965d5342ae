import GrammarNet.Construction
import GrammarNet.Proofs.Construction.Operations
import GrammarNet.Proofs.Pushdown.Labels
import GrammarNet.Proofs.RangeSet.Canonical

/-!
# Labels for given symbols

A label that is drawn for given symbols is filled with them one after the other. In whichever order they come, and however
often, its ranges are the canonical ones for the symbols. So lists of the same symbols are drawn in the same way.
-/

namespace GrammarNet

/-! ## Sets of given symbols -/

namespace RangeSet

theorem Kept.canonical {s : RangeSet} (kept : s.Kept fun r => r.start < r.stop) : Canonical s.ranges := by
  obtain ⟨⟨bound, ascending⟩, filled⟩ := kept
  exact ascending.canonical filled

theorem Kept.foldl_insert {s : RangeSet} (kept : s.Kept fun r => r.start < r.stop) (symbols : List Int) :
    ((symbols.foldl RangeSet.insert s).Kept fun r => r.start < r.stop) ∧
      ∀ x, x ∈ symbols.foldl RangeSet.insert s ↔ x ∈ s ∨ x ∈ symbols := by
  induction symbols generalizing s with
  | nil => exact ⟨kept, fun x => by simp⟩
  | cons y rest inductionHypothesis =>
      have added : (s.insert y).Kept fun r => r.start < r.stop :=
        kept.insertRange admits_filled (by simp only [Range.single]; omega)
      obtain ⟨stays, members⟩ := inductionHypothesis added
      refine ⟨stays, fun x => ?_⟩
      rw [List.foldl_cons, members x, kept.ascending.mem_insert, List.mem_cons]
      tauto

/-- A set that is filled with given symbols holds these. -/
theorem kept_ofList (symbols : List Int) :
    (RangeSet.ofList symbols).Kept (fun r => r.start < r.stop) ∧
      ∀ x, x ∈ RangeSet.ofList symbols ↔ x ∈ symbols := by
  obtain ⟨kept, members⟩ := Kept.foldl_insert .empty symbols
  refine ⟨kept, fun x => (members x).trans ?_⟩
  rw [or_iff_right (not_mem_empty x)]

theorem foldl_insert_filled (symbols : List Int) (ranges : List Range) :
    ∃ more, symbols.foldl RangeSet.insert ⟨some ranges, false⟩ = ⟨some more, false⟩ := by
  induction symbols generalizing ranges with
  | nil => exact ⟨ranges, rfl⟩
  | cons x rest inductionHypothesis => exact inductionHypothesis _

/-- A set that is filled with at least one symbol has ranges, and can be edited. -/
theorem ofList_filled {symbols : List Int} (filled : symbols ≠ []) :
    RangeSet.ofList symbols = ⟨some (RangeSet.ofList symbols).ranges, false⟩ := by
  obtain ⟨first, rest, rfl⟩ := List.exists_cons_of_ne_nil filled
  obtain ⟨more, same⟩ := foldl_insert_filled rest [.single first]
  have all : RangeSet.ofList (first :: rest) = ⟨some more, false⟩ := same
  rw [all]
  rfl

theorem added_ofList (symbols : List Int) : (RangeSet.ofList symbols).Added := by
  have adds : ∀ {s : RangeSet}, s.Added → (symbols.foldl RangeSet.insert s).Added := by
    induction symbols with
    | nil => exact id
    | cons x rest inductionHypothesis => exact fun added => inductionHypothesis (added.insertRange (.single x))
  exact adds added_empty

/-- The ranges of a set that is filled with given symbols are the only canonical ones for these. -/
theorem canonical_iff_ofList {symbols : List Int} {ranges : List Range} :
    (Canonical ranges ∧ ∀ x, Covers ranges x ↔ x ∈ symbols) ↔ ranges = (RangeSet.ofList symbols).ranges := by
  obtain ⟨kept, members⟩ := kept_ofList symbols
  constructor
  · rintro ⟨canonical, covers⟩
    exact canonical.eq_of_covers kept.canonical fun x => (covers x).trans (members x).symm
  · rintro rfl
    exact ⟨kept.canonical, members⟩

/-- Neither the order of the symbols nor their repetition shows in the set. -/
theorem ofList_eq_of_mem_iff {symbols others : List Int} (same : ∀ x, x ∈ others ↔ x ∈ symbols) :
    RangeSet.ofList others = RangeSet.ofList symbols := by
  apply (added_ofList others).eq_of_ranges (added_ofList symbols)
  obtain ⟨kept, members⟩ := kept_ofList others
  exact canonical_iff_ofList.mp ⟨kept.canonical, fun x => (members x).trans (same x)⟩

end RangeSet

/-! ## Labels -/

namespace Label

/-- The symbols that the label for given symbols holds: the one that no token has, if there are none. -/
def symbols (given : List Symbol) : List Symbol := if given = [] then [.invalid] else given

theorem symbols_ne_nil (given : List Symbol) : symbols given ≠ [] := by
  unfold symbols
  split
  · exact List.cons_ne_nil _ _
  · assumption

theorem set_ofSet_ofList (given : List Symbol) :
    (ofSet (some { set := .ofList given })).set = .ofList (symbols given) := by
  cases given with
  | nil => rfl
  | cons first rest =>
      have member : first ∈ RangeSet.ofList (first :: rest) :=
        ((RangeSet.kept_ofList (first :: rest)).2 first).mpr List.mem_cons_self
      have filled : (RangeSet.ofList (first :: rest)).ranges ≠ [] := by
        intro none
        rw [RangeSet.mem_iff_covers, none] at member
        exact covers_nil first member
      simp only [ofSet, symbols, filled, List.cons_ne_nil first rest, if_false]

end Label

/-! ## Drawing labels -/

namespace Construction

open NetM

/-- The arrow is drawn as a transition of the kind, and the state that it leaves has that transition in addition. -/
def Draws (work : Workspace) (source target : StateId) (arrow : Arrow) (kind : TransitionKind) : Prop :=
  ((draw (some source) (some target) arrow).runOn work).1 = .ok ⟨target, kind⟩ ∧
    ((draw (some source) (some target) arrow).runOn work).2.net =
      work.net.modify source (·.addTransition ⟨target, kind⟩ none)

theorem draws_of_kind
    {work : Workspace} {source : StateId} {arrow : Arrow} {kind : TransitionKind}
    (drawn : arrow.kind (.ok (work.net.state source).rule) = .ok kind) (target : StateId) :
    Draws work source target arrow kind := by
  have connects : (draw (some source) (some target) arrow).runOn work =
      (connect (some source) (some target) kind none).runOn work := by
    have asked : arrow.kind ((required (some source)).map fun id => (work.net.state id).rule) = .ok kind := drawn
    simp only [draw, runOn_bind, runOn_network, runOn_lift, asked]
  unfold Draws
  rw [connects]
  exact runOn_connect source target kind work

/-- The label for given symbols has the only canonical ranges for them, whichever list they are given in; for no symbols,
it has those for the symbol that no token has. A transition for any of the symbols matches these and nothing else. -/
theorem labels_canonical (work : Workspace) (source target : StateId) (symbols : List Symbol) :
    ∃ label : Label,
      (∀ ranges, (Canonical ranges ∧ ∀ x, Covers ranges x ↔ x ∈ Label.symbols symbols) ↔ ranges = label.set.ranges) ∧
      (∀ given, (∀ x, x ∈ given ↔ x ∈ symbols) →
        Draws work source target (.anyOf given) (.set label) ∧ Draws work source target (.noneOf given) (.notSet label)) ∧
      ∀ x least greatest, (TransitionKind.set label).accepts x least greatest = true ↔ x ∈ Label.symbols symbols := by
  refine ⟨.ofSet (some { set := .ofList symbols }), ?_, ?_, ?_⟩
  · intro ranges
    rw [Label.set_ofSet_ofList]
    exact RangeSet.canonical_iff_ofList
  · intro given same
    rw [← RangeSet.ofList_eq_of_mem_iff same]
    exact ⟨draws_of_kind rfl target, draws_of_kind rfl target⟩
  · intro x least greatest
    rw [TransitionKind.accepts, decide_eq_true_iff, Label.set_ofSet_ofList]
    exact (RangeSet.kept_ofList (Label.symbols symbols)).2 x

/-- Five symbols in disorder, one of them twice, make two ranges. -/
example : (Label.ofSet (some { set := .ofList [7, -3, 5, 6, 7] })).set.ranges = [⟨-3, -2⟩, ⟨5, 8⟩] := by decide

end Construction

end GrammarNet
