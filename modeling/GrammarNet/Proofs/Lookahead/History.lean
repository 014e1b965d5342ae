import GrammarNet.Proofs.Lookahead.Levels
import GrammarNet.RangeSet.Edit

/-!
# Histories of queries

Queries are asked one after the other, and in between the sets that they have returned are edited. Such a set may be the
very one that is kept with a state, and an edit of it is then one of what is kept. No history of this sort shows in an
answer: what is kept is frozen, and it is what a search would find.
-/

namespace GrammarNet

/-! ## What is kept with states -/

namespace State

/-- The state in which `new` has taken the place of `old`, if `old` was kept with it. -/
def replaceKept (s : State) (old new : RangeSet) : State :=
  if s.withinRule = some old then { s with withinRule := some new } else s

/-- An edit of what is kept changes nothing if what is kept is frozen. -/
theorem replaceKept_apply
    {s : State} (frozen : ∀ known, s.withinRule = some known → known.frozen = true) (set : RangeSet) (edit : Edit) :
    s.replaceKept set (edit.apply set).1 = s := by
  unfold replaceKept
  by_cases kept : s.withinRule = some set
  · have same : (edit.apply set).1 = set := by
      rw [Edit.apply_frozen (frozen set kept)]
    rw [if_pos kept, same, ← kept]
  · rw [if_neg kept]

end State

namespace Network

/-- The network without anything that is kept with its states. -/
def forget (net : Network) : Network :=
  { net with store := net.store.map fun s => { s with withinRule := none } }

/-- The network in which `new` has taken the place of `old` with those of the keepers that kept it. -/
def replaceKept (net : Network) (keepers : StateId → Bool) (old new : RangeSet) : Network :=
  { net with store := net.store.mapIdx fun id s => if keepers id then s.replaceKept old new else s }

theorem state_forget (net : Network) (id : StateId) :
    net.forget.state id = { net.state id with withinRule := none } := by
  unfold forget state
  rw [Array.getElem?_map]
  cases net.store[id]? with
  | none => rfl
  | some s => rfl

theorem truthful_forget (net : Network) : net.forget.Truthful := by
  intro id known kept
  rw [state_forget] at kept
  contradiction

theorem replaceKept_apply
    {net : Network} (frozen : ∀ {id known}, (net.state id).withinRule = some known → known.frozen = true)
    (keepers : StateId → Bool) (set : RangeSet) (edit : Edit) :
    net.replaceKept keepers set (edit.apply set).1 = net := by
  have unchanged :
      (net.store.mapIdx fun id s => if keepers id then s.replaceKept set (edit.apply set).1 else s) = net.store := by
    apply Array.ext
    · exact Array.size_mapIdx
    · intro id _ small
      have here : net.state id = net.store[id] := by
        unfold state
        rw [Array.getElem?_eq_getElem small]
        rfl
      have same : (net.store[id]).replaceKept set (edit.apply set).1 = net.store[id] := by
        apply State.replaceKept_apply
        intro known kept
        exact frozen (here ▸ kept)
      rw [Array.getElem_mapIdx, same, ite_self]
  unfold replaceKept
  rw [unchanged]

end Network

namespace Lookahead

open NetM

/-! ## Acts -/

/-- What happens to a network at work: it answers a query, or a set is edited. The set may be any, whether a query has
returned it or not; it is the very set that is kept with those of the keepers that keep one like it. -/
inductive Act where
  | ask (query : Query)
  | edit (set : RangeSet) (change : Edit) (keepers : StateId → Bool)

namespace Act

/-- The workspace after an act. -/
def run : Act → Workspace → Workspace
  | ask query, work => (query.ask.runOn work).2
  | edit set change keepers, work => { work with net := work.net.replaceKept keepers set (change.apply set).1 }

/-- The workspace after some acts, the first one first. -/
def runAll (acts : List Act) (work : Workspace) : Workspace := acts.foldl (fun work act => act.run work) work

variable {work : Workspace}

theorem fills_run (truthful : work.net.Truthful) (act : Act) : work.net.Fills (act.run work).net := by
  cases act with
  | ask query => exact fills_runOn work query
  | edit set change keepers =>
      have unchanged := Network.replaceKept_apply truthful.frozen keepers set change
      show work.net.Fills (work.net.replaceKept keepers set (change.apply set).1)
      rw [unchanged]
      exact .refl work.net

theorem fills_runAll (work : Workspace) (truthful : work.net.Truthful) (acts : List Act) :
    work.net.Fills (runAll acts work).net := by
  induction acts generalizing work with
  | nil => exact .refl work.net
  | cons act rest inductionHypothesis =>
      have first : work.net.Fills (act.run work).net := fills_run truthful act
      have later := inductionHypothesis (act.run work) (first.truthful truthful)
      exact first.trans later

end Act

/-! ## Alternatives, one by one -/

/-- What a search from behind a transition finds is the answer, unless nothing was added or a predicate comes first. -/
theorem alternative_of_ok
    {net : Network} {t : Transition} {found : RangeSet}
    (ok : net.lookahead { throughPredicates := false, marksEnd := false } (some t.target) .root = .ok found) :
    alternative net t = if found.ranges? = none ∨ Symbol.invalid ∈ found then .ok none else .ok (some found) := by
  simp only [alternative, ok, bind, Except.bind]
  rfl

theorem outcome_alternativesFrom_cons
    (s : State) (index : Nat) (t : Transition) (rest : List Transition) (work : Workspace) :
    ((alternativesFrom s index (t :: rest)).runOn work).1 =
      (alternative work.net t).bind fun found =>
        ((alternativesFrom s (index + 1) rest).runOn
          { work with log := work.log ++ [.alternative index s.number found] }).1.map (found :: ·) := by
  simp only [alternativesFrom, runOn_bind, runOn_network, runOn_lift, runOn_report]
  cases alternative work.net t with
  | error fault => rfl
  | ok found =>
      simp only [Except.bind]
      generalize (alternativesFrom s (index + 1) rest).runOn _ = answer
      obtain ⟨outcome, later⟩ := answer
      cases outcome <;> rfl

section Outcomes

variable {work : Workspace} {id : StateId}

theorem outcome_alternativesFrom
    {f : Transition → Option RangeSet} (s : State) (index : Nat) {transitions : List Transition}
    (answers : ∀ t ∈ transitions, alternative work.net t = .ok (f t)) :
    ((alternativesFrom s index transitions).runOn work).1 = .ok (transitions.map f) := by
  induction transitions generalizing work index with
  | nil => rfl
  | cons t rest inductionHypothesis =>
      rw [outcome_alternativesFrom_cons, answers t List.mem_cons_self]
      show Except.map (f t :: ·) _ = _
      rw [inductionHypothesis]
      · rfl
      · exact fun u member => answers u (List.mem_cons_of_mem t member)

theorem outcome_alternatives
    {f : Transition → Option RangeSet} (answers : ∀ t ∈ (work.net.state id).transitions,
      alternative work.net t = .ok (f t)) :
    ((alternatives (some id)).runOn work).1 = .ok (some ((work.net.state id).transitions.map f)) := by
  rw [Lookahead.alternatives, runOn_bind, runOn_network]
  simp only
  rw [runOn_bind_pure, outcome_alternativesFrom _ _ answers]
  rfl

end Outcomes

/-! ## Equal answers -/

/-- The workspaces have the same graph, and keep with its states nothing but what searches find. -/
structure Twins (work other : Workspace) : Prop where
  same : work.net.SameGraph other.net
  truthful : work.net.Truthful
  alsoTruthful : other.net.Truthful

section Twins

variable {work other : Workspace}

theorem Twins.look_eq (twins : Twins work other) (state stop : Option StateId) (stack : CallStack) :
    ((look state stop stack).runOn other).1 = ((look state stop stack).runOn work).1 := by
  rw [runOn_look, runOn_look]
  exact twins.same.lookahead { stop := stop } state stack

theorem Twins.within_eq (twins : Twins work other) : within other = within work := by
  funext state
  cases state with
  | none => rw [within_none, within_none]
  | some id =>
      rw [within_of_truthful twins.alsoTruthful, within_of_truthful twins.truthful, twins.same.lookahead]

theorem Twins.level_eq (twins : Twins work other) : level other = level work := by
  funext link
  rw [level, level, twins.same.followState, twins.within_eq]

theorem Twins.expected_eq (twins : Twins work other) (number : Int) (stack : CallStack) :
    ((expected number stack).runOn other).1 = ((expected number stack).runOn work).1 := by
  rw [outcome_expected, outcome_expected, twins.same.slot?, twins.same.slots, twins.within_eq, twins.level_eq]

theorem Twins.alternativesFrom_eq
    (twins : Twins work other) (s otherState : State) (index : Nat) (transitions : List Transition) :
    ((alternativesFrom otherState index transitions).runOn other).1 =
      ((alternativesFrom s index transitions).runOn work).1 := by
  induction transitions generalizing work other index with
  | nil => rfl
  | cons t rest inductionHypothesis =>
      have same : alternative other.net t = alternative work.net t := by
        unfold alternative
        simp only [twins.same.lookahead]
      have later : ∀ found,
          ((alternativesFrom otherState (index + 1) rest).runOn
            { other with log := other.log ++ [.alternative index otherState.number found] }).1 =
          ((alternativesFrom s (index + 1) rest).runOn
            { work with log := work.log ++ [.alternative index s.number found] }).1 := by
        intro found
        apply inductionHypothesis
        exact ⟨twins.same, twins.truthful, twins.alsoTruthful⟩
      rw [outcome_alternativesFrom_cons, outcome_alternativesFrom_cons, same]
      simp only [later]

theorem Twins.ask_eq (twins : Twins work other) (query : Query) :
    (query.ask.runOn other).1 = (query.ask.runOn work).1 := by
  cases query with
  | withinRule state =>
      rw [Query.ask, runOn_bind_pure, runOn_bind_pure, outcome_withinRule, outcome_withinRule, twins.within_eq]
  | next state callers =>
      rw [Query.ask, runOn_bind_pure, runOn_bind_pure, Lookahead.next]
      by_cases alone : callers.stack = .unknown ∨ callers.stack.atRoot = true
      · rw [if_pos alone, outcome_withinRule, outcome_withinRule, twins.within_eq]
      · rw [if_neg alone, twins.look_eq]
  | look state stop callers =>
      rw [Query.ask, runOn_bind_pure, runOn_bind_pure, twins.look_eq]
  | expected number callers =>
      rw [Query.ask, runOn_bind_pure, runOn_bind_pure, twins.expected_eq]
  | alternatives state =>
      cases state with
      | none => rfl
      | some id =>
          rw [Query.ask, runOn_bind_pure, runOn_bind_pure, Lookahead.alternatives, runOn_bind, runOn_bind]
          simp only [runOn_network, runOn_bind_pure]
          rw [twins.same.transitions, twins.alternativesFrom_eq]

end Twins

/-- Whatever was asked and edited before, a query is answered as in a network that keeps nothing yet. At every time,
what is kept with a state is nothing or the frozen copy of what a look within its rule finds, and it stays from then
on. -/
theorem answers_independent_of_history (net : Network) (log : List Event) (acts later : List Act) :
    (∀ query : Query,
      (query.ask.runOn (Act.runAll acts ⟨net.forget, log⟩)).1 = (query.ask.runOn ⟨net.forget, []⟩).1) ∧
    (∀ id, ((Act.runAll acts ⟨net.forget, log⟩).net.state id).withinRule = none ∨
      ∃ found, ((look (some id) none .unknown).runOn ⟨net.forget, []⟩).1 = .ok found ∧
        ((Act.runAll acts ⟨net.forget, log⟩).net.state id).withinRule = some found.freeze) ∧
    ∀ id known, ((Act.runAll acts ⟨net.forget, log⟩).net.state id).withinRule = some known →
      ((Act.runAll later (Act.runAll acts ⟨net.forget, log⟩)).net.state id).withinRule = some known := by
  have fresh : net.forget.Truthful := net.truthful_forget
  have filled : net.forget.Fills (Act.runAll acts ⟨net.forget, log⟩).net :=
    Act.fills_runAll ⟨net.forget, log⟩ fresh acts
  have truthful := filled.truthful fresh
  have twins : Twins ⟨net.forget, []⟩ (Act.runAll acts ⟨net.forget, log⟩) := ⟨filled.same, fresh, truthful⟩
  refine ⟨twins.ask_eq, fun id => ?_, fun id known kept => ?_⟩
  · rw [runOn_look]
    rcases filled.kept id with unchanged | ⟨_, found, ok, kept⟩
    · exact Or.inl (unchanged.trans (by rw [Network.state_forget]))
    · exact Or.inr ⟨found, ok, kept⟩
  · exact (Act.fills_runAll _ truthful later).of_kept kept

end Lookahead

end GrammarNet
