import GrammarNet.Lookahead
import GrammarNet.Proofs.Search.Complete

/-!
# Lookahead is exact

On a network whose left-recursive rules match something, the lookahead of a state holds the symbols that can come
first on a path, and no others. The search that finds them visits each point once and enters each rule once on a path;
the paths do neither.
-/

namespace GrammarNet

namespace Network

/-- A network on which lookahead can be read off the paths: it is well-formed, the ranges of its labels are as `P`
says, no rule can come back to itself and also match nothing, and one that can come back to itself has one entry. -/
structure Regular (P : Range → Prop) (net : Network) : Prop where
  shape : net.WellFormed
  labelled : net.Labelled P
  guarded : net.Guarded
  single : net.SingleEntry

theorem Regular.mono
    {P Q : Range → Prop} {net : Network} (regular : net.Regular P) (implies : ∀ {r : Range}, P r → Q r) :
    net.Regular Q where
  shape := regular.shape
  labelled := fun id listed t member => (regular.labelled id listed t member).mono implies
  guarded := regular.guarded
  single := regular.single

section Regular

variable {P : Range → Prop} {net : Network} {mode : SearchMode} {start : StateId} {stack : CallStack}

/-- Either the lookahead holds what can come first, and no path fails, or a path fails as the lookahead does. -/
theorem Regular.lookahead
    (admits : Admits P) (regular : net.Regular P) (mode : SearchMode) (listed : start ∈ net.listed)
    (stack : CallStack) :
    (∃ found, net.lookahead mode (some start) stack = .ok found ∧ found.Kept P ∧
      (∀ x, x ∈ found ↔ net.First mode ⟨start, stack⟩ x) ∧
      ∀ p fault, net.Reaches mode ⟨start, stack⟩ p → ¬ net.Fails p fault) ∨
    ∃ fault p, net.lookahead mode (some start) stack = .error fault ∧ net.Reaches mode ⟨start, stack⟩ p ∧
      net.Fails p fault := by
  obtain ⟨steps, ends, _⟩ := Search.ends_lookahead net mode (some start) stack
  have outcomes := ends.invariant
    (P := fun search => search.Sound net mode P ⟨start, stack⟩ ∧ search.Explored net mode ⟨start, stack⟩)
    ⟨Search.sound_start listed, Search.explored_start listed⟩
    fun holds pending performed =>
      ⟨holds.1.performed regular.shape admits regular.labelled pending performed,
        holds.2.performed regular.shape admits holds.1 pending performed⟩
  rcases outcomes with
    ⟨last, ⟨sound, explored⟩, idle, outcome⟩ | ⟨last, task, rest, fault, ⟨sound, _⟩, pending, refused, outcome⟩
  · have visits : last.Visits net ⟨start, stack⟩ := by
      rcases explored.origin with visits | ⟨config, member, _⟩
      · exact visits
      · simp [idle] at member
    have complete : ∀ x, net.First mode ⟨start, stack⟩ x → x ∈ last.found := by
      rintro x ⟨steps, q, path, emits⟩
      obtain ⟨id, config, record, alsoEmits⟩ :=
        explored.exists_record regular.shape regular.guarded regular.single (shallow_emits x) idle listed visits path
          emits
      rcases Search.leads_of_emits alsoEmits with leads | ⟨kind, leads, yields⟩
      · exact record.done idle leads
      · exact record.done idle leads x yields
    have goesOn : ∀ p fault, net.Reaches mode ⟨start, stack⟩ p → ¬ net.Fails p fault := by
      rintro p fault ⟨steps, path⟩ fails
      obtain ⟨id, config, record, alsoFails⟩ :=
        explored.exists_record regular.shape regular.guarded regular.single (shallow_fails fault) idle listed visits
          path fails
      exact record.goesOn fault alsoFails
    exact Or.inl ⟨last.found, outcome, sound.kept, fun x => ⟨sound.found x, complete x⟩, goesOn⟩
  · obtain ⟨p, reaches, fails⟩ := sound.fails admits pending refused
    exact Or.inr ⟨fault, p, outcome, reaches, fails⟩

/-- Under callers that invoke a rule, the lookahead holds what can come first. -/
theorem Regular.exists_lookahead
    (admits : Admits P) (regular : net.Regular P) (mode : SearchMode) (listed : start ∈ net.listed)
    (invoking : net.Invoking stack) :
    ∃ found, net.lookahead mode (some start) stack = .ok found ∧ found.Kept P ∧
      ∀ x, x ∈ found ↔ net.First mode ⟨start, stack⟩ x := by
  rcases regular.lookahead admits mode listed stack with
    ⟨found, ok, kept, first, _⟩ | ⟨fault, p, _, reaches, fails⟩
  · exact ⟨found, ok, kept, first⟩
  · exact absurd fails
      (not_fails_of_invoking regular.shape (invoking_of_reaches regular.shape listed invoking reaches))

end Regular

end Network

namespace Lookahead

/-- What can come next from a state, under any callers and up to any state to stop at, is what can come first on the
paths of the network. -/
theorem look_exact
    (work : Workspace) (regular : work.net.Regular fun r => r.start ≤ r.stop) (start : StateId)
    (listed : start ∈ work.net.listed) (stop : Option StateId) (callers : Callers)
    (invoking : work.net.Invoking callers.stack) :
    ∃ found, (look (some start) stop callers.stack).runOn work = (.ok found, work) ∧
      ∀ x, x ∈ found ↔ work.net.First { stop := stop } ⟨start, callers.stack⟩ x := by
  obtain ⟨found, ok, _, first⟩ := regular.exists_lookahead admits_upright { stop := stop } listed invoking
  refine ⟨found, ?_, first⟩
  show (work.net.lookahead { stop := stop } (some start) callers.stack, work) = _
  rw [ok]

/-- The network of `s : e ;` and `e : e 1 | 2 ;`. -/
def leftRecursion : Network :=
  .ofStates 2 [
    { kind := .ruleStart, rule := 0, transitions := [⟨1, .epsilon (-1)⟩] },
    { kind := .basic, rule := 0, transitions := [⟨3, .rule 1 0 (some 2)⟩] },
    { kind := .ruleStop, rule := 0 },
    { kind := .ruleStart, rule := 1, transitions := [⟨4, .epsilon (-1)⟩, ⟨5, .epsilon (-1)⟩] },
    { kind := .basic, rule := 1, transitions := [⟨3, .rule 1 0 (some 6)⟩] },
    { kind := .basic, rule := 1, transitions := [⟨7, .atom 2 (.single 2)⟩] },
    { kind := .basic, rule := 1, transitions := [⟨7, .atom 1 (.single 1)⟩] },
    { kind := .ruleStop, rule := 1 }]

theorem leftRecursion_regular : leftRecursion.Regular Range.OfInput where
  shape := by decide
  labelled := by decide
  guarded :=
    have unstopped : leftRecursion.Unstopped [0, 1, 3, 4, 5] := by decide
    unstopped.guarded (by decide)
  single := Network.singleEntry_of_targets (by decide)

theorem leftRecursion_filled : leftRecursion.Regular fun r => r.start < r.stop :=
  ⟨leftRecursion_regular.shape, by decide, leftRecursion_regular.guarded, leftRecursion_regular.single⟩

/-- At the end of `e`, invoked from within itself, what comes next is what follows the invocation. -/
theorem look_exact_leftRecursion :
    7 ∈ leftRecursion.listed ∧ leftRecursion.Invoking [4, 1, -1] ∧
      ∃ found, (look (some 7) none [4, 1, -1]).runOn ⟨leftRecursion, []⟩ = (.ok found, ⟨leftRecursion, []⟩) ∧
        ∀ x, x ∈ found ↔ leftRecursion.First {} ⟨7, [4, 1, -1]⟩ x :=
  ⟨by decide, by decide,
    look_exact ⟨leftRecursion, []⟩ (leftRecursion_regular.mono And.right) 7 (by decide) none (.chain [4, 1, -1]) (by decide)⟩

/-- A rule with two entries, of which the first invokes the second. -/
def twoEntries : Network :=
  .ofStates 5 [
    { kind := .basic, rule := 1, transitions := [⟨1, .rule 0 0 (some 3)⟩] },
    { kind := .ruleStart, rule := 0, transitions := [⟨2, .rule 0 0 (some 4)⟩] },
    { kind := .ruleStart, rule := 0, transitions := [⟨4, .atom 5 (.single 5)⟩] },
    { kind := .basic, rule := 1 },
    { kind := .basic, rule := 0 }]

theorem lookahead_twoEntries : twoEntries.lookahead {} (some 0) [] = .ok .empty := by
  have ends : Search.Ends twoEntries {} (Search.start (some 0) []) (.ok .empty) 2 :=
    .step rfl (Search.perform_visit_of_not_mem rfl (by simp [Search.start]) rfl)
      (.step rfl (Search.perform_visit_of_not_mem rfl (by simp [Search.start, CallStack.push]) rfl) (.done rfl))
  exact ends.lookahead_eq

/-- The second entry is cut off like a repetition of the first, and what only it shows is lost. -/
theorem look_not_exact_with_two_entries :
    ¬ ∀ (work : Workspace) (start : StateId) (stop : Option StateId) (callers : Callers),
      work.net.WellFormed → (work.net.Labelled fun r => r.start ≤ r.stop) → work.net.Guarded →
        start ∈ work.net.listed → work.net.Invoking callers.stack →
          ∃ found, (look (some start) stop callers.stack).runOn work = (.ok found, work) ∧
            ∀ x, x ∈ found ↔ work.net.First { stop := stop } ⟨start, callers.stack⟩ x := by
  intro claim
  have unstopped : twoEntries.Unstopped [1, 2] := by decide
  obtain ⟨found, ok, first⟩ :=
    claim ⟨twoEntries, []⟩ 0 none (.chain []) (by decide) (by decide) (unstopped.guarded (by decide)) (by decide)
      (by decide)
  have outcome : twoEntries.lookahead {} (some 0) [] = .ok found := congrArg Prod.fst ok
  rw [lookahead_twoEntries] at outcome
  obtain rfl := Except.ok.inj outcome
  have outset : twoEntries.Passable {} ⟨0, []⟩ := by
    rw [Network.passable_unknown_iff]
    unfold Network.Leaves
    decide
  have within : ∀ {id : StateId} {link : Int} {outer : CallStack}, 0 ≤ link →
      (twoEntries.state id).isRuleStop = false → twoEntries.Passable {} ⟨id, link :: outer⟩ :=
    fun nonneg goesOn => (Network.passable_invoked_iff nonneg).mpr goesOn
  have invokes : twoEntries.Move {} ⟨0, []⟩ ⟨1, [0]⟩ :=
    .enter (t := ⟨1, .rule 0 0 (some 3)⟩) outset (by decide) rfl
  have again : twoEntries.Move {} ⟨1, [0]⟩ ⟨2, [1, 0]⟩ :=
    .enter (t := ⟨2, .rule 0 0 (some 4)⟩) (within (by decide) rfl) (by decide) rfl
  have shows : twoEntries.Emits {} ⟨2, [1, 0]⟩ 5 :=
    .consume (t := ⟨4, .atom 5 (.single 5)⟩) (within (by decide) rfl) (by decide) (by decide : (5 : Symbol) ∈ RangeSet.singleton 5)
  exact RangeSet.not_mem_empty 5 ((first 5).mpr ⟨2, _, .step invokes (.step again (.here _)), shows⟩)

end Lookahead

end GrammarNet
