import GrammarNet.Proofs.Lookahead.Evaluation
import GrammarNet.Proofs.Search.SameGraph

/-!
# What queries keep

A query changes a network only by keeping answers with its states. It fills in what was not known, with the frozen
copy of what a search within the rule finds, and leaves alone whatever was kept before.
-/

namespace GrammarNet

namespace Network

/-- From the earlier network to the later one, only answers were filled in. -/
structure Fills (earlier later : Network) : Prop where
  same : earlier.SameGraph later
  kept : ∀ id, (later.state id).withinRule = (earlier.state id).withinRule ∨
    (earlier.state id).withinRule = none ∧ ∃ found,
      earlier.lookahead {} (some id) .unknown = .ok found ∧ (later.state id).withinRule = some found.freeze

/-- What is kept with any state is what a search finds within its rule. -/
def Truthful (net : Network) : Prop :=
  ∀ id known, (net.state id).withinRule = some known →
    ∃ found, net.lookahead {} (some id) .unknown = .ok found ∧ known = found.freeze

theorem truthful_of_unknown {net : Network} (unknown : ∀ s ∈ net.store.toList, s.withinRule = none) : net.Truthful := by
  intro id known kept
  unfold state at kept
  cases made : net.store[id]? with
  | none =>
      rw [made] at kept
      contradiction
  | some s =>
      rw [made] at kept
      have nothing := unknown s (Array.mem_toList_iff.mpr (Array.mem_of_getElem? made))
      exact absurd (nothing.symm.trans kept) nofun

section Fills

variable {first second third : Network} {id : StateId} {known : RangeSet}

theorem Fills.refl (net : Network) : net.Fills net := ⟨.refl net, fun _ => Or.inl rfl⟩

theorem Fills.trans (earlier : first.Fills second) (later : second.Fills third) : first.Fills third where
  same := earlier.same.trans later.same
  kept := by
    intro id
    rcases later.kept id with unchanged | ⟨unknown, found, ok, filled⟩
    · rw [unchanged]
      exact earlier.kept id
    · have sameOk : first.lookahead {} (some id) .unknown = .ok found := by
        rw [← earlier.same.lookahead, ok]
      rcases earlier.kept id with before | ⟨_, _, _, taken⟩
      · have stillUnknown : (first.state id).withinRule = none := before.symm.trans unknown
        exact Or.inr ⟨stillUnknown, found, sameOk, filled⟩
      · rw [unknown] at taken
        contradiction

/-- What is kept once is kept for good. -/
theorem Fills.of_kept (fills : first.Fills second) (kept : (first.state id).withinRule = some known) :
    (second.state id).withinRule = some known := by
  rcases fills.kept id with unchanged | ⟨unknown, _⟩
  · rw [unchanged, kept]
  · rw [kept] at unknown
    contradiction

theorem Fills.truthful (fills : first.Fills second) (truthful : first.Truthful) : second.Truthful := by
  intro id known kept
  have sameSearch := fills.same.lookahead {} (some id) .unknown
  rcases fills.kept id with unchanged | ⟨_, found, ok, filled⟩
  · have before : (first.state id).withinRule = some known := unchanged.symm.trans kept
    obtain ⟨found, ok, same⟩ := truthful id known before
    exact ⟨found, sameSearch.trans ok, same⟩
  · have same : known = found.freeze := Option.some.inj (kept.symm.trans filled)
    exact ⟨found, sameSearch.trans ok, same⟩

/-- What a truthful network keeps is frozen. -/
theorem Truthful.frozen (truthful : first.Truthful) (kept : (first.state id).withinRule = some known) :
    known.frozen = true := by
  obtain ⟨found, _, same⟩ := truthful id known kept
  rw [same]
  rfl

end Fills

end Network

namespace Lookahead

section Queries

variable {work : Workspace}

/-! ## Queries fill in -/

theorem fills_keep
    {id : StateId} {found : RangeSet} (unknown : (work.net.state id).withinRule = none)
    (searches : Searches work.net {} (some id) .unknown (.ok found)) :
    work.net.Fills (keep work id found.freeze).net where
  same := (Network.SameGraph.refl work.net).keep id found.freeze
  kept := by
    intro other
    rcases work.net.state_modify id other fun s => { s with withinRule := some found.freeze } with
      unchanged | ⟨same, changed⟩
    · exact Or.inl (congrArg State.withinRule unchanged)
    · subst same
      exact Or.inr ⟨unknown, found, searches.lookahead_eq, congrArg State.withinRule changed⟩

/-- What is known of a state is what a search finds within its rule, whether it was kept or not. -/
theorem WithinRule.outcome_eq
    {id : StateId} {answer : Except Fault RangeSet × Workspace} (within : WithinRule work (some id) answer)
    (truthful : work.net.Truthful) : answer.1 = (work.net.lookahead {} (some id) .unknown).map RangeSet.freeze := by
  cases within with
  | known kept =>
      obtain ⟨found, ok, same⟩ := truthful id _ kept
      rw [ok, same]
      rfl
  | failed _ searches | found _ searches =>
      rw [searches.lookahead_eq]
      rfl

theorem WithinRule.fills
    {state : Option StateId} {answer : Except Fault RangeSet × Workspace} (within : WithinRule work state answer) :
    work.net.Fills answer.2.net := by
  cases within with
  | nowhere | known _ | failed _ _ => exact .refl work.net
  | found unknown searches => exact fills_keep unknown searches

theorem ExpectedBeyond.fills
    {links : List Int} {found : RangeSet} {answer : Except Fault RangeSet × Workspace}
    (evaluation : ExpectedBeyond work links found answer) : work.net.Fills answer.2.net := by
  induction evaluation with
  | exhausted | unreturned _ => exact .refl _
  | refused _ within | settled _ within _ => exact within.fills
  | further _ within _ _ inductionHypothesis => exact within.fills.trans inductionHypothesis

theorem Expected.fills
    {number : Int} {stack : CallStack} {answer : Except Fault RangeSet × Workspace}
    (expected : Expected work number stack answer) : work.net.Fills answer.2.net := by
  cases expected with
  | unlisted _ => exact .refl work.net
  | refused _ within | settled _ within _ => exact within.fills
  | further _ within _ beyond => exact within.fills.trans beyond.fills

theorem AlternativesFrom.fills
    {s : State} {index : Nat} {transitions : List Transition}
    {answer : Except Fault (List (Option RangeSet)) × Workspace}
    (evaluation : AlternativesFrom s work index transitions answer) : work.net.Fills answer.2.net := by
  induction evaluation with
  | done | failed _ => exact .refl _
  | next _ _ inductionHypothesis => exact inductionHypothesis

theorem Answers.fills
    {query : Query} {answer : Except Fault Answer × Workspace} (answers : Answers work query answer) :
    work.net.Fills answer.2.net := by
  cases answers with
  | withinRule within | nextWithin _ within => exact within.fills
  | nextAlong _ _ | look _ | noAlternatives => exact .refl work.net
  | expected expected => exact expected.fills
  | alternatives alternatives => exact alternatives.fills

/-- A query only fills in, whether it succeeds or fails. -/
theorem fills_runOn (work : Workspace) (query : Query) : work.net.Fills (query.ask.runOn work).2.net :=
  (answers_runOn work query).fills

end Queries

end Lookahead

end GrammarNet
