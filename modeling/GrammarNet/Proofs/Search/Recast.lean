import GrammarNet.Proofs.Pushdown.SamePaths
import GrammarNet.Proofs.Search.Safe

/-!
# Networks with their states recast

Paths depend on the graph of a network alone. So the parts that its states play may be recast for the sake of an
argument, as long as the same states stop rules: which states count as the starts of rules is up to what is shown.
-/

namespace GrammarNet

namespace Network

/-- From the state, which starts a rule, an invocation of the rule can be reached without consuming a symbol. -/
def ReachesItself (net : Network) (entry : StateId) : Prop :=
  ∃ p, net.Reaches {} ⟨entry, .unknown⟩ p ∧
    ∃ t ∈ (net.state p.state).transitions, t.isRule = true ∧ (net.state t.target).rule = (net.state entry).rule

theorem Unstopped.not_canEnd
    {net : Network} {states : List StateId} {id : StateId} (unstopped : net.Unstopped states) (member : id ∈ states) :
    ¬ net.CanEnd id := by
  rintro ⟨stop, reaches, stops⟩
  have stays : stop ∈ states := unstopped.mem_of_reaches member reaches
  rw [(unstopped stop stays).1] at stops
  exact Bool.noConfusion stops

/-- If the rule that starts at the state can come back to itself, then all its invocations enter it there, and it matches
something. -/
structure RegularAt (net : Network) (entry : StateId) : Prop where
  single : net.ReachesItself entry → ∀ id ∈ net.listed, ∀ t ∈ (net.state id).transitions, t.isRule = true →
    (net.state t.target).rule = (net.state entry).rule → t.target = entry
  guarded : ¬ (net.ReachesItself entry ∧ net.CanEnd entry)

theorem SameGraph.samePaths {net other : Network} (same : net.SameGraph other) : net.SamePaths other :=
  ⟨same.slots, same.maxSymbol, same.number, same.rule, same.isRuleStop, fun id t => by rw [same.transitions]⟩

namespace SamePaths

variable {net other : Network} {id : StateId}

theorem reachesItself (same : net.SamePaths other) (recursive : net.ReachesItself id) : other.ReachesItself id := by
  obtain ⟨p, reaches, t, member, invokes, sameRule⟩ := recursive
  refine ⟨p, same.reaches reaches, t, (same.transitions p.state t).mpr member, invokes, ?_⟩
  rw [same.rule, same.rule]
  exact sameRule

theorem regularAt (same : net.SamePaths other) (regular : net.RegularAt id) : other.RegularAt id where
  single := by
    intro recursive source listed t member invokes sameRule
    rw [same.listed] at listed
    rw [same.transitions] at member
    rw [same.rule, same.rule] at sameRule
    exact regular.single (same.symm.reachesItself recursive) source listed t member invokes sameRule
  guarded := fun both => regular.guarded ⟨same.symm.reachesItself both.1, same.symm.canEnd both.2⟩

end SamePaths

/-! ## Recast states -/

end Network

/-- The state, cast as the start of a rule or not. The stop of a rule stays one. -/
def State.recast (s : State) (starts : Bool) : State :=
  { s with
    kind :=
      if s.kind = .ruleStop then .ruleStop
      else if starts = true then .ruleStart
      else if s.kind = .ruleStart then .basic
      else s.kind }

section State

variable {s : State} {starts : Bool}

theorem State.isRuleStop_recast (s : State) (starts : Bool) : (s.recast starts).isRuleStop = s.isRuleStop := by
  unfold isRuleStop recast
  by_cases stops : s.kind = .ruleStop
  · simp [stops]
  · by_cases known : s.kind = .ruleStart <;> cases starts <;> simp [stops, known]

theorem State.kind_recast_eq_ruleStart_iff :
    (s.recast starts).kind = .ruleStart ↔ s.kind ≠ .ruleStop ∧ starts = true := by
  unfold recast
  by_cases stops : s.kind = .ruleStop
  · simp [stops]
  · by_cases known : s.kind = .ruleStart <;> cases starts <;> simp [stops, known]

theorem State.kind_recast_eq_tokensStart_iff :
    (s.recast starts).kind = .tokensStart ↔ s.kind = .tokensStart ∧ starts = false := by
  unfold recast
  by_cases stops : s.kind = .ruleStop
  · simp [stops]
  · by_cases known : s.kind = .ruleStart <;> cases starts <;> simp [stops, known]

end State

namespace Network

/-- The network in which the states that `starts` names start a rule, and no others. -/
def recast (net : Network) (starts : StateId → Bool) : Network :=
  { net with store := net.store.mapIdx fun id s => s.recast (starts id) }

section Recast

variable {net : Network} {starts : StateId → Bool} {id : StateId}

theorem state_recast_cases (net : Network) (starts : StateId → Bool) (id : StateId) :
    (id < net.store.size ∧ (net.recast starts).state id = (net.state id).recast (starts id)) ∨
      (net.store.size ≤ id ∧ (net.recast starts).state id = net.state id) := by
  unfold recast state
  rw [Array.getElem?_mapIdx]
  by_cases made : id < net.store.size
  · rw [Array.getElem?_eq_getElem made]
    exact Or.inl ⟨made, rfl⟩
  · have beyond : net.store.size ≤ id := Nat.le_of_not_lt made
    rw [Array.getElem?_eq_none beyond]
    exact Or.inr ⟨beyond, rfl⟩

theorem state_recast (made : id < net.store.size) : (net.recast starts).state id = (net.state id).recast (starts id) := by
  rcases net.state_recast_cases starts id with ⟨_, cast⟩ | ⟨beyond, _⟩
  · exact cast
  · exact absurd made (Nat.not_lt.mpr beyond)

theorem sameGraph_recast (net : Network) (starts : StateId → Bool) : net.SameGraph (net.recast starts) := by
  have same : ∀ {β : Type} (read : State → β), (∀ s cast, read (s.recast cast) = read s) →
      ∀ id, read ((net.recast starts).state id) = read (net.state id) := by
    intro β read blind id
    rcases net.state_recast_cases starts id with ⟨_, cast⟩ | ⟨_, kept⟩
    · rw [cast, blind]
    · rw [kept]
  exact ⟨rfl, rfl, same State.number fun _ _ => rfl, same State.rule fun _ _ => rfl,
    same State.isRuleStop State.isRuleStop_recast, same State.transitions fun _ _ => rfl⟩

/-- A network that can be navigated is well-formed once it is recast so that its rules are entered at their starts, if
it keeps to its rules. -/
theorem Navigable.wellFormed_recast
    (navigable : net.Navigable) (made : ∀ id ∈ net.listed, id < net.store.size)
    (entries : ∀ id ∈ net.listed, ∀ t ∈ (net.state id).transitions, t.isRule = true →
      (net.state t.target).kind ≠ .ruleStop ∧ starts t.target = true)
    (modes : ∀ id ∈ net.listed, ∀ t ∈ (net.state id).transitions,
      ((net.state t.target).kind = .tokensStart → starts t.target = true) ∧
        ∀ next ∈ t.kind.follow?, (net.state next).kind = .tokensStart → starts next = true)
    (follows : ∀ id ∈ net.listed, ∀ t ∈ (net.state id).transitions, ∀ next ∈ t.kind.follow?,
      (net.state next).rule = (net.state id).rule)
    (within : ∀ id ∈ net.listed, (net.state id).kind ≠ .ruleStop →
      ((net.state id).kind = .tokensStart → starts id = true) →
        ∀ t ∈ (net.state id).transitions, t.isRule = false → (net.state t.target).rule = (net.state id).rule) :
    (net.recast starts).WellFormed := by
  have same : net.SameGraph (net.recast starts) := net.sameGraph_recast starts
  have listed : (net.recast starts).listed = net.listed := rfl
  -- A state that is named is no longer the start of a mode, whatever it was before.
  have unstarted : ∀ {id}, id ∈ net.listed → (((net.recast starts).state id).kind ≠ .tokensStart ↔
      ((net.state id).kind = .tokensStart → starts id = true)) := by
    intro id member
    rw [state_recast (made id member), ne_eq, State.kind_recast_eq_tokensStart_iff, not_and, Bool.not_eq_false]
  constructor
  · exact (navigable.of_sameGraph same).numbered
  · intro id member t inState
    rw [same.transitions] at inState
    have target : t.target ∈ net.listed := navigable.targets id member t inState
    exact ⟨target, (unstarted target).mpr (modes id member t inState).1⟩
  · intro id member t inState invokes
    refine ⟨((navigable.of_sameGraph same).invocations id member t inState invokes).1, ?_⟩
    rw [same.transitions] at inState
    have target : t.target ∈ net.listed := navigable.targets id member t inState
    rw [state_recast (made _ target), State.kind_recast_eq_ruleStart_iff]
    exact entries id member t inState invokes
  · intro id member t inState invokes
    obtain ⟨_, next, nextListed, follow⟩ := (navigable.of_sameGraph same).invocations id member t inState invokes
    rw [same.transitions] at inState
    refine ⟨next, nextListed, follow, ?_, (unstarted nextListed).mpr ((modes id member t inState).2 next follow)⟩
    rw [same.rule, same.rule]
    exact follows id member t inState next follow
  · intro id member goesOn begins t inState plain
    rw [same.transitions] at inState
    rw [same.rule, same.rule]
    apply within id member _ ((unstarted member).mp begins) t inState plain
    intro stops
    apply goesOn
    have cast := same.isRuleStop id
    unfold State.isRuleStop at cast
    rw [stops] at cast
    exact eq_of_beq cast

end Recast

end Network

end GrammarNet
