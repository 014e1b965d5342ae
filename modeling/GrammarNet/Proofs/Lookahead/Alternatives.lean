import GrammarNet.Proofs.Lookahead.Covering
import GrammarNet.Proofs.Lookahead.Matching
import GrammarNet.Proofs.Lookahead.Order
import GrammarNet.Proofs.Search.Offers

/-!
# The answers of a decision

An alternative of a decision has no answer where nothing can come first or a predicate comes first; otherwise its answer
is what can come first, whatever called the rule. That something was added to the set is what the search asks for, and
that is less than a symbol in it: an inverted interval adds a range without a symbol.
-/

namespace GrammarNet

/-- Without a predicate and without a label that says so, the mark of a predicate does not come first. -/
theorem Network.not_first_invalid
    {net : Network} {mode : SearchMode} {p : Point}
    (plain : ∀ s ∈ net.store.toList, ∀ t ∈ s.transitions,
      t.kind.isPredicate = false ∧ ¬ t.kind.Yields net.maxSymbol Symbol.invalid) :
    ¬ net.First mode p Symbol.invalid := by
  rintro ⟨_, ⟨id, stack⟩, _, emits⟩
  cases emits with
  | halt halts =>
      cases stack with
      | nil => exact absurd halts.2 (by decide)
      | cons link outer => exact absurd halts.2.2.2 (by decide)
  | consume _ member yields => exact (plain _ (state_mem_store member) _ member).2 yields
  | hit _ member predicate _ =>
      exact Bool.noConfusion (predicate.symm.trans (plain _ (state_mem_store member) _ member).1)

/-! ## Arrows that offer symbols -/

/-- The arrow may offer a range without a symbol: it is drawn for an interval that ends before it begins, or for none of
some symbols that straddle the first one of the user. -/
def Construction.Arrow.Barren : Arrow → Prop
  | .interval first last => last < first
  | arrow => arrow.Straddles

/-- Otherwise, all ranges that it offers hold a symbol. -/
theorem Construction.Arrow.offers
    {arrow : Arrow} {rule : Except Fault Int} {kind : TransitionKind} (drawn : arrow.kind rule = .ok kind)
    (fertile : ¬ arrow.Barren) (greatest : Symbol) : kind.Offers (fun r => r.start < r.stop) greatest := by
  have single : ∀ {v : Range}, v.start < v.stop → ∀ r ∈ (RangeSet.empty.insertRange v).ranges, r.start < r.stop := by
    intro v filled r member
    rw [List.mem_singleton.mp member]
    exact filled
  intro offer offered
  cases arrow with
  | atom symbol =>
      obtain rfl := Except.ok.inj drawn
      obtain rfl := Except.ok.inj offered
      exact single (Int.lt_succ symbol)
  | interval first last =>
      obtain rfl := Except.ok.inj drawn
      obtain rfl := Except.ok.inj offered
      exact single (Int.lt_add_one_of_le (Int.not_lt.mp fertile))
  | anyOf symbols =>
      obtain rfl := Except.ok.inj drawn
      obtain rfl := Except.ok.inj offered
      rw [Label.set_ofSet_ofList]
      exact (RangeSet.kept_ofList (Label.symbols symbols)).1.ranges
  | noneOf symbols =>
      obtain rfl := Except.ok.inj drawn
      have plain := mt (straddles_ofList symbols).mp fertile
      simp only [TransitionKind.offer] at offered
      rw [Label.set_ofSet_ofList] at offered
      split at offered
      · obtain rfl := Except.ok.inj offered
        simp
      · rename_i large
        obtain ⟨kept, _⟩ := RangeSet.kept_ofList (Label.symbols symbols)
        obtain ⟨bound, ascending⟩ := kept.ascending
        obtain ⟨rest, complement, holds, _⟩ :=
          RangeSet.complement_of_ascending false (Int.not_lt.mp large) ascending kept.ranges
        rw [RangeSet.ofList_filled (Label.symbols_ne_nil symbols), complement] at offered
        obtain rfl := Except.ok.inj offered
        exact holds plain
  | wildcard =>
      obtain rfl := Except.ok.inj drawn
      simp only [TransitionKind.offer] at offered
      split at offered
      · obtain rfl := Except.ok.inj offered
        simp
      · rename_i large
        obtain rfl := Except.ok.inj offered
        exact single (Int.lt_add_one_of_le (Int.not_lt.mp large))
  | epsilon | precedence =>
      obtain rfl := Except.ok.inj drawn
      obtain rfl := Except.ok.inj offered
      simp
  | predicate | action =>
      cases rule with
      | error fault => contradiction
      | ok owner =>
          obtain rfl := Except.ok.inj drawn
          obtain rfl := Except.ok.inj offered
          simp

namespace Lookahead

open Construction NetM

/-! ## Exact answers -/

/-- The answer tells which symbols come first, and there is one unless none comes first or a predicate does. -/
def Tells (first : Symbol → Prop) : Option RangeSet → Prop
  | none => (∀ x, ¬ first x) ∨ first Symbol.invalid
  | some found => (∃ x, first x) ∧ ¬ first Symbol.invalid ∧ ∀ x, x ∈ found ↔ first x

section Exact

variable {net : Network} {t : Transition}

theorem tells_alternative
    (regular : net.Regular fun r => r.start < r.stop) (listed : t.target ∈ net.listed) :
    ∃ answer, alternative net t = .ok answer ∧ Tells (net.First .deciding ⟨t.target, .root⟩) answer := by
  obtain ⟨found, ok, kept, first⟩ :=
    regular.exists_lookahead admits_filled .deciding listed Network.invoking_root
  have nothing : found.ranges? = none ↔ ∀ x, ¬ net.First .deciding ⟨t.target, .root⟩ x := by
    rw [(Network.added_of_lookahead ok).ranges?_eq_none_iff, kept.canonical.eq_nil_iff]
    exact forall_congr' fun x => not_congr (first x)
  rw [alternative_of_ok ok]
  by_cases useless : found.ranges? = none ∨ Symbol.invalid ∈ found
  · rw [if_pos useless]
    exact ⟨none, rfl, useless.imp nothing.mp (first Symbol.invalid).mp⟩
  · rw [if_neg useless]
    obtain ⟨something, unhit⟩ := not_or.mp useless
    exact ⟨some found, rfl, not_forall_not.mp (mt nothing.mpr something), mt (first Symbol.invalid).mpr unhit, first⟩

/-- On a regular network, each alternative of a state has its answer: the symbols that can come first after it, whatever
called its rule, or none if nothing can come first or a predicate can. -/
theorem alternatives_exact
    (work : Workspace) (regular : work.net.Regular fun r => r.start < r.stop) (d : StateId)
    (listed : d ∈ work.net.listed) :
    ∃ found later, (alternatives (some d)).runOn work = (.ok (some found), later) ∧
      List.Forall₂ (fun t answer => Tells (work.net.First .deciding ⟨t.target, .root⟩) answer)
        (work.net.state d).transitions found := by
  have answers : ∀ t ∈ (work.net.state d).transitions, ∃ answer, alternative work.net t = .ok answer ∧
      Tells (work.net.First .deciding ⟨t.target, .root⟩) answer := fun t member =>
    tells_alternative regular (regular.shape.targets d listed t member).1
  choose! f ok tells using answers
  refine ⟨_, _, Prod.ext (outcome_alternatives ok) rfl, ?_⟩
  rw [List.forall₂_map_right_iff, List.forall₂_same]
  exact tells

/-- Both ways through `e` in `e : e 1 | 2 ;` are told, also the one that comes back to the decision. -/
theorem alternatives_exact_leftRecursion :
    (leftRecursion.Regular fun r => r.start < r.stop) ∧ 3 ∈ leftRecursion.listed ∧
      ∃ found later, (alternatives (some 3)).runOn ⟨leftRecursion, []⟩ = (.ok (some found), later) ∧
        List.Forall₂ (fun t answer => Tells (leftRecursion.First .deciding ⟨t.target, .root⟩) answer)
          (leftRecursion.state 3).transitions found :=
  ⟨leftRecursion_filled, by decide, alternatives_exact ⟨leftRecursion, []⟩ leftRecursion_filled 3 (by decide)⟩

/-- The rule with two entries, invoked over and over again. -/
def twoEntriesRepeated : Network := twoEntries.withTransitions 3 [⟨0, .epsilon (-1)⟩]

theorem lookahead_twoEntriesRepeated : twoEntriesRepeated.lookahead .deciding (some 0) .root = .ok .empty := by
  have ends : Search.Ends twoEntriesRepeated .deciding (Search.start (some 0) .root) (.ok .empty) 2 :=
    .step rfl (Search.perform_visit_of_not_mem rfl (by simp [Search.start]) rfl)
      (.step rfl (Search.perform_visit_of_not_mem rfl (by simp [Search.start, CallStack.push, CallStack.root]) rfl)
        (.done rfl))
  exact ends.lookahead_eq

/-- With two entries of a rule that comes back to itself, an alternative may go without an answer although a symbol can
come first after it. -/
theorem alternatives_not_exact_with_two_entries :
    ¬ ∀ (work : Workspace) (d : StateId), work.net.WellFormed → (work.net.Labelled fun r => r.start < r.stop) →
      work.net.Guarded → d ∈ work.net.listed →
        ∃ found later, (alternatives (some d)).runOn work = (.ok (some found), later) ∧
          List.Forall₂ (fun t answer => Tells (work.net.First .deciding ⟨t.target, .root⟩) answer)
            (work.net.state d).transitions found := by
  intro claim
  have unstopped : twoEntriesRepeated.Unstopped [1, 2] := by decide
  obtain ⟨found, later, ok, tells⟩ :=
    claim ⟨twoEntriesRepeated, []⟩ 3 (by decide) (by decide) (unstopped.guarded (by decide)) (by decide)
  have answered : ∀ t ∈ (twoEntriesRepeated.state 3).transitions, alternative twoEntriesRepeated t = .ok none := by
    intro t member
    obtain rfl := List.mem_singleton.mp member
    exact alternative_of_ok (t := ⟨0, .epsilon (-1)⟩) lookahead_twoEntriesRepeated
  have outcome : ((alternatives (some 3)).runOn ⟨twoEntriesRepeated, []⟩).1 =
      .ok (some ((twoEntriesRepeated.state 3).transitions.map fun _ => none)) := outcome_alternatives answered
  rw [ok] at outcome
  obtain rfl := Option.some.inj (Except.ok.inj outcome)
  have told : Tells (twoEntriesRepeated.First .deciding ⟨0, .root⟩) none := (List.forall₂_cons.mp tells).1
  have within : ∀ {id : StateId} {link : Int} {outer : CallStack}, 0 ≤ link →
      (twoEntriesRepeated.state id).isRuleStop = false → twoEntriesRepeated.Passable .deciding ⟨id, link :: outer⟩ :=
    fun nonneg goesOn => (Network.passable_invoked_iff nonneg).mpr goesOn
  have outset : twoEntriesRepeated.Passable .deciding ⟨0, .root⟩ :=
    (Network.passable_root_iff (by decide)).mpr fun ends => Bool.noConfusion ends.2
  have invokes : twoEntriesRepeated.Move .deciding ⟨0, .root⟩ ⟨1, [0, -1]⟩ :=
    .enter (t := ⟨1, .rule 0 0 (some 3)⟩) outset (by decide) rfl
  have again : twoEntriesRepeated.Move .deciding ⟨1, [0, -1]⟩ ⟨2, [1, 0, -1]⟩ :=
    .enter (t := ⟨2, .rule 0 0 (some 4)⟩) (within (by decide) rfl) (by decide) rfl
  have shows : twoEntriesRepeated.Emits .deciding ⟨2, [1, 0, -1]⟩ 5 :=
    .consume (t := ⟨4, .atom 5 (.single 5)⟩) (within (by decide) rfl) (by decide)
      (by decide : (5 : Symbol) ∈ RangeSet.singleton 5)
  rcases told with nothing | hit
  · exact nothing 5 ⟨2, _, .step invokes (.step again (.here _)), shows⟩
  · exact Network.not_first_invalid (by decide) hit

end Exact

/-! ## Answers that hold a symbol -/

section Inhabited

variable {net : Network} {t : Transition} {shown : RangeSet}

theorem Alternative.ranges_ne_nil (alternative : Alternative net t (.ok (some shown))) : shown.ranges ≠ [] := by
  cases alternative with
  | answered searches useful =>
      intro empty
      have added := Network.added_of_lookahead searches.lookahead_eq
      exact useful (Or.inl (added.ranges?_eq_none_iff.mpr empty))

/-- Whatever a decision may come to from the state on, its callers unknown, is drawn by an arrow that offers no range
without a symbol. -/
def Fruitful (net : Network) (id : StateId) : Prop :=
  ∀ config here, Search.Calling net .deciding ⟨some id, .root, []⟩ config → config.state = some here →
    ∀ t ∈ (net.state here).transitions, t.isEpsilon = false →
      ∃ (arrow : Arrow) (rule : Except Fault Int), arrow.kind rule = .ok t.kind ∧ ¬ arrow.Barren

/-- If so, what was added to the set holds a symbol. -/
theorem Fruitful.exists_mem
    {id : StateId} (fruitful : Fruitful net id) (ok : net.lookahead .deciding (some id) .root = .ok shown)
    (added : shown.ranges ≠ []) : ∃ x, x ∈ shown := by
  have kept : shown.Kept fun r => r.start < r.stop := by
    apply Search.kept_of_lookahead admits_filled _ ok
    intro config here path state t member
    cases free : t.isEpsilon with
    | true => exact TransitionKind.offers_of_isEpsilon free
    | false =>
        obtain ⟨arrow, rule, drawn, fertile⟩ := fruitful config here path state t member free
        exact arrow.offers drawn fertile net.maxSymbol
  by_contra nothing
  exact added (kept.canonical.eq_nil_iff.mpr (not_exists.mp nothing))

/-- Once a builder has finished a network with success, every state is answered for each of its transitions. Where there
is an answer, no predicate comes first, and something was added to the set; it holds a symbol, unless the search comes to
an inverted interval or to a way out for none of some symbols that straddle the first one of the user. -/
theorem alternatives_inhabited
    {direct : Bool} (work : Workspace) (finished : Finished direct work) (acts : List Act) (d : StateId)
    (listed : d ∈ work.net.listed) :
    ∃ found later, (alternatives (some d)).runOn (Act.runAll acts work) = (.ok (some found), later) ∧
      List.Forall₂
        (fun t answer => ∀ shown ∈ answer, Symbol.invalid ∉ shown ∧ shown.ranges ≠ [] ∧
          (Fruitful work.net t.target → ∃ x, x ∈ shown))
        (work.net.state d).transitions found := by
  have navigable := finished.assembled.navigable finished.verified
  have fills := Act.fills_runAll work finished.truthful acts
  generalize Act.runAll acts work = asked at fills
  have evaluation := alternativesFrom_runOn (asked.net.state d) asked 0 (asked.net.state d).transitions
  have transitions : (asked.net.state d).transitions = (work.net.state d).transitions := fills.same.transitions d
  obtain ⟨found, later, ok⟩ := evaluation.outcome navigable ⟨finished.truthful, fills⟩ fun t member =>
    navigable.targets d listed t (transitions ▸ member)
  have each := evaluation.answered (congrArg Prod.fst ok)
  rw [transitions] at each
  refine ⟨found, later, runOn_alternatives_of_ok ok, each.imp fun t answer alternative shown answered => ?_⟩
  obtain rfl := Option.mem_def.mp answered
  obtain ⟨shownOk, unhit⟩ := alternative.lookahead_eq
  rw [fills.same.lookahead] at shownOk
  exact ⟨unhit, alternative.ranges_ne_nil, fun fruitful => fruitful.exists_mem shownOk alternative.ranges_ne_nil⟩

/-- Both alternatives in `e : 1 (2 | ) ;` are answered with a symbol, if they are answered at all. -/
theorem alternatives_inhabited_option :
    7 ∈ optionNetwork.net.listed ∧
      ∃ found later, (alternatives (some 7)).runOn (Act.runAll [] optionNetwork) = (.ok (some found), later) ∧
        List.Forall₂ (fun _ answer => ∀ shown ∈ answer, Symbol.invalid ∉ shown ∧ shown.ranges ≠ [] ∧ ∃ x, x ∈ shown)
          (optionNetwork.net.state 7).transitions found := by
  obtain ⟨listed, tokens⟩ :
      7 ∈ optionNetwork.net.listed ∧ ∀ s ∈ optionNetwork.net.store.toList, ∀ t ∈ s.transitions, t.isEpsilon = false →
        ∃ symbol ∈ [1, 2, 3], t.kind = .atom symbol (.single symbol) := by
    decide +kernel
  have fruitful : ∀ id, Fruitful optionNetwork.net id := by
    intro id _ here _ _ t member consumes
    obtain ⟨symbol, _, same⟩ := tokens _ (Network.state_mem_store member) t member consumes
    exact ⟨.atom symbol, .error .noState, congrArg Except.ok same.symm, not_false⟩
  obtain ⟨found, later, ok, answers⟩ := alternatives_inhabited optionNetwork finished_optionNetwork [] 7 listed
  refine ⟨listed, found, later, ok, answers.imp fun t answer answered shown given => ?_⟩
  obtain ⟨unhit, added, inhabited⟩ := answered shown given
  exact ⟨unhit, added, inhabited (fruitful t.target)⟩

/-- The steps that build `s : 5..3 ;`, where the interval ends before it begins. -/
def invertedSteps : List Step :=
  [.rule 0, .add .basic 0, .draw (some 0) (some 2) (.epsilon (-1)), .draw (some 2) (some 1) (.interval 5 3)]

def invertedNetwork : Workspace := ((build true).runOn (runAll invertedSteps (begun .parser 5 false))).2

/-- All that is computed of the network, at once. -/
theorem checked_invertedNetwork :
    (AllOffered false invertedSteps (begun .parser 5 false) ∧
      ((build true).runOn (runAll invertedSteps (begun .parser 5 false))).1 = .ok ()) ∧
    0 ∈ invertedNetwork.net.listed ∧ (invertedNetwork.net.state 0).transitions = [⟨2, .epsilon (-1)⟩] := by
  decide +kernel

theorem finished_invertedNetwork : Finished false invertedNetwork :=
  .of_checked .parser 5 false invertedSteps checked_invertedNetwork.1

theorem lookahead_invertedNetwork :
    invertedNetwork.net.lookahead .deciding (some 2) .root = .ok ⟨some [⟨5, 4⟩], false⟩ := by
  have ends : Search.Ends invertedNetwork.net .deciding (Search.start (some 2) .root) (.ok ⟨some [⟨5, 4⟩], false⟩) 2 :=
    .step rfl (Search.perform_visit_of_not_mem rfl (by simp [Search.start]) rfl)
      (.step rfl (Search.perform_consume_of_ok rfl) (.done rfl))
  exact ends.lookahead_eq

/-- What follows the start of `s` is answered with a set in which there is nothing. -/
theorem alternatives_not_inhabited_of_inverted_interval :
    ¬ ∀ (work : Workspace) (d : StateId) (found : List (Option RangeSet)) (later : Workspace), Finished false work →
      d ∈ work.net.listed → (alternatives (some d)).runOn work = (.ok (some found), later) →
        ∀ shown, some shown ∈ found → Symbol.invalid ∉ shown ∧ ∃ x, x ∈ shown := by
  intro claim
  obtain ⟨_, listed, drawn⟩ := checked_invertedNetwork
  have answered : ∀ t ∈ (invertedNetwork.net.state 0).transitions,
      alternative invertedNetwork.net t = .ok (some ⟨some [⟨5, 4⟩], false⟩) := by
    rw [drawn, List.forall_mem_singleton]
    exact alternative_of_ok (t := ⟨2, .epsilon (-1)⟩) lookahead_invertedNetwork
  have outcome := outcome_alternatives (f := fun _ => some ⟨some [⟨5, 4⟩], false⟩) answered
  rw [drawn] at outcome
  obtain ⟨_, x, inside⟩ := claim invertedNetwork 0 _ _ finished_invertedNetwork listed (Prod.ext outcome rfl)
    ⟨some [⟨5, 4⟩], false⟩ List.mem_cons_self
  obtain ⟨r, member, least, most⟩ := inside
  obtain rfl := List.mem_singleton.mp member
  simp only at least most
  omega

end Inhabited

end Lookahead

end GrammarNet
