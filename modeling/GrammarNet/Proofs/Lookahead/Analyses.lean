import GrammarNet.Proofs.Construction.Verified
import GrammarNet.Proofs.Lookahead.History

/-!
# Analyses of verified networks

Whatever a builder has assembled, if its verification succeeds then so does every analysis of every listed state. Only
the walk along a chain of callers can fail, where it comes to a link that invokes no rule.
-/

namespace GrammarNet

namespace Network

/-- A search within the rule of the state finds that the rule can end. -/
def EndsWithin (net : Network) (id : StateId) : Prop :=
  ∃ found, net.lookahead {} (some id) .unknown = .ok found ∧ Symbol.epsilon ∈ found

/-- The walk out along the links comes to a link: to the first one, and beyond it as long as the rules that are returned
to can end. -/
inductive Uses (net : Network) : List Int → Int → Prop
  | first {link : Int} {outer : List Int} : Uses net (link :: outer) link
  | beyond {link far : Int} {outer : List Int} {next : StateId} (followed : net.followState link = .ok (some next))
      (canEnd : net.EndsWithin next) (later : Uses net outer far) : Uses net (link :: outer) far

end Network

/-- A network that was just finished keeps nothing yet. -/
theorem Construction.Finished.truthful
    {direct : Bool} {work : Workspace} (finished : Construction.Finished direct work) : work.net.Truthful := by
  intro id known kept
  rw [finished.assembled.unknown id] at kept
  contradiction

namespace Lookahead

open Construction NetM

section Analyses

variable {net : Network} {work : Workspace} {id : StateId}

/-- A workspace in which nothing but answers were filled in. -/
structure Continues (net : Network) (work : Workspace) : Prop where
  truthful : net.Truthful
  fills : net.Fills work.net

theorem Continues.later (continues : Continues net work) {later : Workspace} (fills : work.net.Fills later.net) :
    Continues net later :=
  ⟨continues.truthful, continues.fills.trans fills⟩

/-- What can come next within the rule of a listed state is found, and it is what the network had to offer. -/
theorem WithinRule.exists_ok
    {answer : Except Fault RangeSet × Workspace} (within : WithinRule work (some id) answer)
    (navigable : net.Navigable) (continues : Continues net work) (listed : id ∈ net.listed) :
    ∃ following later, answer = (.ok following, later) ∧ Continues net later ∧
      (Symbol.epsilon ∈ following ↔ net.EndsWithin id) := by
  obtain ⟨found, ok⟩ := Search.exists_lookahead_of_navigable navigable {} listed Network.invoking_unknown
  have outcome : answer.1 = .ok found.freeze := by
    rw [within.outcome_eq (continues.fills.truthful continues.truthful), continues.fills.same.lookahead, ok]
    rfl
  refine ⟨found.freeze, answer.2, Prod.ext outcome rfl, continues.later within.fills, ?_⟩
  rw [RangeSet.mem_freeze]
  constructor
  · exact fun canEnd => ⟨found, ok, canEnd⟩
  · rintro ⟨other, alsoOk, canEnd⟩
    rw [ok] at alsoOk
    rw [Except.ok.inj alsoOk]
    exact canEnd

theorem WithinRule.not_failing
    {fault : Fault} {later : Workspace} (navigable : net.Navigable) (continues : Continues net work)
    (listed : id ∈ net.listed) : ¬ WithinRule work (some id) (.error fault, later) := by
  intro within
  obtain ⟨_, _, succeeds, _⟩ := within.exists_ok navigable continues listed
  exact nomatch congrArg Prod.fst succeeds

theorem WithinRule.continues
    {following : RangeSet} {later : Workspace} (within : WithinRule work (some id) (.ok following, later))
    (navigable : net.Navigable) (continues : Continues net work) (listed : id ∈ net.listed) :
    Continues net later ∧ (Symbol.epsilon ∈ following ↔ net.EndsWithin id) := by
  obtain ⟨_, _, succeeds, laterContinues, ends⟩ := within.exists_ok navigable continues listed
  injection succeeds with same sameLater
  obtain rfl := Except.ok.inj same
  subst sameLater
  exact ⟨laterContinues, ends⟩

/-- Following a link leads on to a listed state if the link invokes a rule, and fails otherwise. -/
theorem Continues.followState_cases
    {link : Int} {followed : Except Fault (Option StateId)} (continues : Continues net work) (navigable : net.Navigable)
    (same : work.net.followState link = followed) :
    (net.Invokes link ∧ ∃ next ∈ net.listed, net.followState link = .ok (some next) ∧ followed = .ok (some next)) ∨
      (¬ net.Invokes link ∧ ∃ defect, followed = .error (.malformed defect)) := by
  rw [continues.fills.same.followState] at same
  by_cases invokes : net.Invokes link
  · obtain ⟨next, listed, found⟩ := navigable.followState_of_invokes invokes
    exact Or.inl ⟨invokes, next, listed, found, same.symm.trans found⟩
  · obtain ⟨defect, lost⟩ := Network.followState_of_not_invokes invokes
    exact Or.inr ⟨invokes, defect, same.symm.trans lost⟩

/-- The walk along a chain succeeds if all links that it uses invoke a rule, and otherwise fails at one that does
not. -/
theorem ExpectedBeyond.outcome
    {links : List Int} {found : RangeSet} {answer : Except Fault RangeSet × Workspace}
    (evaluation : ExpectedBeyond work links found answer) (navigable : net.Navigable) (continues : Continues net work) :
    (∃ result later, answer = (.ok result, later) ∧ ∀ link, net.Uses links link → net.Invokes link) ∨
      ∃ defect later, answer = (.error (.malformed defect), later) ∧ ∃ link, net.Uses links link ∧ ¬ net.Invokes link := by
  induction evaluation with
  | @exhausted work found => exact Or.inl ⟨_, work, rfl, fun link uses => nomatch uses⟩
  | @unreturned work link outer found fault followed =>
      rcases continues.followState_cases navigable followed with ⟨_, _, _, _, impossible⟩ | ⟨stranded, defect, same⟩
      · contradiction
      · injection same with same
        subst same
        exact Or.inr ⟨defect, work, rfl, link, .first, stranded⟩
  | refused followed within =>
      rcases continues.followState_cases navigable followed with ⟨_, target, listed, _, same⟩ | ⟨_, _, impossible⟩
      · obtain rfl := Except.ok.inj same
        exact absurd within (WithinRule.not_failing navigable continues listed)
      · contradiction
  | @settled work later link outer found following next followed within goesOn =>
      rcases continues.followState_cases navigable followed with ⟨invokes, target, listed, returns, same⟩ | ⟨_, _, impossible⟩
      · obtain rfl := Except.ok.inj same
        obtain ⟨_, ends⟩ := within.continues navigable continues listed
        refine Or.inl ⟨_, later, rfl, fun far uses => ?_⟩
        cases uses with
        | first => exact invokes
        | beyond alsoReturns canEnd _ =>
            rw [returns] at alsoReturns
            obtain rfl := Option.some.inj (Except.ok.inj alsoReturns)
            exact absurd (ends.mpr canEnd) goesOn
      · contradiction
  | @further work later link outer found following next answer followed within canEnd _ inductionHypothesis =>
      rcases continues.followState_cases navigable followed with ⟨invokes, target, listed, returns, same⟩ | ⟨_, _, impossible⟩
      · obtain rfl := Except.ok.inj same
        obtain ⟨laterContinues, ends⟩ := within.continues navigable continues listed
        rcases inductionHypothesis laterContinues with ⟨result, last, same, all⟩ | ⟨defect, last, same, far, uses, stranded⟩
        · refine Or.inl ⟨result, last, same, fun far uses => ?_⟩
          cases uses with
          | first => exact invokes
          | beyond alsoReturns _ beyond =>
              rw [returns] at alsoReturns
              exact all far beyond
        · exact Or.inr ⟨defect, last, same, far, .beyond returns (ends.mp canEnd) uses, stranded⟩
      · contradiction

/-- What is expected after a listed state is found, unless the walk along the chain uses a link that invokes no
rule. -/
theorem Expected.outcome
    {number : Int} {stack : CallStack} {answer : Except Fault RangeSet × Workspace}
    (expected : Expected work number stack answer) (navigable : net.Navigable) (continues : Continues net work)
    (slot : net.slot? number = some id) :
    (∃ result later, answer = (.ok result, later) ∧
      (net.EndsWithin id → ∀ link, net.Uses stack.links link → net.Invokes link)) ∨
    ∃ defect later, answer = (.error (.malformed defect), later) ∧
      net.EndsWithin id ∧ ∃ link, net.Uses stack.links link ∧ ¬ net.Invokes link := by
  have listed : id ∈ net.listed := Network.mem_listed_of_slot? slot
  have sameSlot : work.net.slot? number = some id := (continues.fills.same.slot? number).trans slot
  cases expected with
  | unlisted absent =>
      rw [sameSlot] at absent
      contradiction
  | refused found within =>
      obtain rfl := Option.some.inj (sameSlot.symm.trans found)
      exact absurd within (WithinRule.not_failing navigable continues listed)
  | @settled other following later found within goesOn =>
      obtain rfl := Option.some.inj (sameSlot.symm.trans found)
      obtain ⟨_, ends⟩ := within.continues navigable continues listed
      exact Or.inl ⟨_, later, rfl, fun canEnd => absurd (ends.mpr canEnd) goesOn⟩
  | further found within canEnd beyond =>
      obtain rfl := Option.some.inj (sameSlot.symm.trans found)
      obtain ⟨laterContinues, ends⟩ := within.continues navigable continues listed
      rcases beyond.outcome navigable laterContinues with ⟨result, last, same, all⟩ | ⟨defect, last, same, far, uses, stranded⟩
      · exact Or.inl ⟨result, last, same, fun _ => all⟩
      · exact Or.inr ⟨defect, last, same, ends.mp canEnd, far, uses, stranded⟩

/-- Every alternative of a listed state is answered. -/
theorem AlternativesFrom.outcome
    {s : State} {index : Nat} {transitions : List Transition} {answer : Except Fault (List (Option RangeSet)) × Workspace}
    (evaluation : AlternativesFrom s work index transitions answer) (navigable : net.Navigable)
    (continues : Continues net work) (targets : ∀ t ∈ transitions, t.target ∈ net.listed) :
    ∃ found later, answer = (.ok found, later) := by
  induction evaluation with
  | @done work index => exact ⟨[], work, rfl⟩
  | @failed work index t rest fault alternative =>
      cases alternative with
      | failed searches =>
          obtain ⟨found, ok⟩ := Search.exists_lookahead_of_navigable navigable
            { throughPredicates := false, marksEnd := false } (targets t List.mem_cons_self) Network.invoking_root
          rw [← continues.fills.same.lookahead, searches.lookahead_eq] at ok
          contradiction
  | @next work later index t rest found outcome _ _ inductionHypothesis =>
      obtain ⟨others, last, same⟩ :=
        inductionHypothesis ⟨continues.truthful, continues.fills⟩ fun u member => targets u (List.mem_cons_of_mem t member)
      injection same with ok sameLater
      subst ok sameLater
      exact ⟨found :: others, later, rfl⟩

theorem runOn_alternatives_of_ok
    {found : List (Option RangeSet)} {later : Workspace}
    (ok : (alternativesFrom (work.net.state id) 0 (work.net.state id).transitions).runOn work = (.ok found, later)) :
    (alternatives (some id)).runOn work = (.ok (some found), later) := by
  rw [Lookahead.alternatives, runOn_bind, runOn_network]
  simp only
  rw [runOn_bind_pure, ok]
  rfl

/-! ## Analyses of one state -/

/-- Every analysis of the state succeeds. What is expected under callers fails only where the walk along their chain
uses a link that invokes no rule, with the fault that says so. -/
structure Analysable (work : Workspace) (id : StateId) : Prop where
  look : ∃ found, (look (some id) none .unknown).runOn work = (.ok found, work)
  next : ∃ found later, (next (some id) .unknown).runOn work = (.ok found, later)
  alternatives : ∃ found later, (alternatives (some id)).runOn work = (.ok (some found), later)
  atRoot : ∃ found later, (expected (work.net.state id).number .root).runOn work = (.ok found, later)
  underCallers : ∀ callers : Callers,
    (∃ found later, (expected (work.net.state id).number callers.stack).runOn work = (.ok found, later) ∧
      (work.net.EndsWithin id → ∀ link, work.net.Uses callers.stack.links link → work.net.Invokes link)) ∨
    ∃ defect later, (expected (work.net.state id).number callers.stack).runOn work = (.error (.malformed defect), later) ∧
      work.net.EndsWithin id ∧ ∃ link, work.net.Uses callers.stack.links link ∧ ¬ work.net.Invokes link

/-- On a navigable network that keeps nothing but what searches find, every analysis of a listed state succeeds. -/
theorem analysable_of_navigable
    (navigable : work.net.Navigable) (truthful : work.net.Truthful) (listed : id ∈ work.net.listed) :
    Analysable work id := by
  have continues : Continues work.net work := ⟨truthful, .refl work.net⟩
  have slot : work.net.slot? (work.net.state id).number = some id := navigable.numbered id listed
  constructor
  · obtain ⟨found, ok⟩ := Search.exists_lookahead_of_navigable navigable {} listed Network.invoking_unknown
    exact ⟨found, by rw [runOn_look, ok]⟩
  · obtain ⟨found, later, same, _⟩ := (withinRule_runOn work (some id)).exists_ok navigable continues listed
    exact ⟨found, later, same⟩
  · have evaluation := alternativesFrom_runOn (work.net.state id) work 0 (work.net.state id).transitions
    obtain ⟨found, later, same⟩ := evaluation.outcome navigable continues (navigable.targets id listed)
    exact ⟨found, later, runOn_alternatives_of_ok same⟩
  · rcases (expected_runOn work (work.net.state id).number .root).outcome navigable continues slot with
      ⟨found, later, same, _⟩ | ⟨_, _, _, _, link, uses, _⟩
    · exact ⟨found, later, same⟩
    · exact nomatch uses
  · intro callers
    exact (expected_runOn work (work.net.state id).number callers.stack).outcome navigable continues slot

/-- Once a builder has finished a network with success, every analysis of every listed state succeeds, whatever was asked
and edited before; and what is expected under callers fails exactly where the walk along their chain uses a link that
invokes no rule. -/
theorem analysable_of_finished
    (work : Workspace) (finished : Finished true work) (acts : List Act) (id : StateId) (listed : id ∈ work.net.listed) :
    Analysable (Act.runAll acts work) id := by
  have fills := Act.fills_runAll work finished.truthful acts
  have navigable := (finished.assembled.navigable finished.verified).of_sameGraph fills.same
  apply analysable_of_navigable navigable (fills.truthful finished.truthful)
  rw [fills.same.listed]
  exact listed

/-- The steps that build `s : s 1 | ;`, the last of which fails. -/
def listSteps : List Step :=
  [.rule 0, .block 0 .basicBlockStart, .add .basic 0, .add .basic 0,
    .draw (some 0) (some 2) (.epsilon (-1)), .draw (some 2) (some 4) (.epsilon (-1)), .invoke (some 4) 0 (some 5) 0,
    .draw (some 5) (some 3) (.atom 1), .draw (some 2) (some 3) (.epsilon (-1)), .draw (some 3) (some 1) (.epsilon (-1)),
    .invoke (some 3) 7 (some 1) 0]

/-- What is left behind when the steps were taken and the network was finished. -/
def listNetwork : Workspace := ((build true).runOn (runAll listSteps (begun .parser 1 false))).2

theorem finished_listNetwork : Finished true listNetwork :=
  .of_checked .parser 1 false listSteps (by decide +kernel)

theorem analysable_of_finished_list :
    Finished true listNetwork ∧ 4 ∈ listNetwork.net.listed ∧
      Analysable (Act.runAll [.ask (.expected 4 (.chain .root))] listNetwork) 4 :=
  have listed : 4 ∈ listNetwork.net.listed := by decide +kernel
  ⟨finished_listNetwork, listed,
    analysable_of_finished listNetwork finished_listNetwork [.ask (.expected 4 (.chain .root))] 4 listed⟩

end Analyses

end Lookahead

end GrammarNet
