import GrammarNet.Proofs.Pushdown.SamePaths
import GrammarNet.Proofs.Search.SameGraph

/-!
# Networks up to the order of transitions

Two networks may differ in the order in which transitions leave their states. The shape of a network does not depend on
it, since a transition that invokes a rule is the only one of its state, nor does what its paths lead to.
-/

namespace GrammarNet

namespace Network

/-- The networks have the same slots and vocabulary, and states of the same kind, number and rule, with the same
transitions up to their order. What is kept with the states may differ. -/
structure Reordered (net other : Network) : Prop where
  slots : other.slots = net.slots
  maxSymbol : other.maxSymbol = net.maxSymbol
  kind : ∀ id, (other.state id).kind = (net.state id).kind
  number : ∀ id, (other.state id).number = (net.state id).number
  rule : ∀ id, (other.state id).rule = (net.state id).rule
  transitions : ∀ id, (other.state id).transitions.Perm (net.state id).transitions

/-- The network in which the transitions of a state are those given. -/
def withTransitions (net : Network) (id : StateId) (transitions : List Transition) : Network :=
  net.modify id fun s => { s with transitions := transitions }

namespace Reordered

variable {net other : Network} {id : StateId} {rule : Int}

theorem samePaths (same : net.Reordered other) : net.SamePaths other where
  slots := same.slots
  maxSymbol := same.maxSymbol
  number := same.number
  rule := same.rule
  isRuleStop := by
    intro id
    unfold State.isRuleStop
    rw [same.kind]
  transitions := fun id t => (same.transitions id).mem_iff

theorem symm (same : net.Reordered other) : other.Reordered net :=
  ⟨same.slots.symm, same.maxSymbol.symm, fun id => (same.kind id).symm, fun id => (same.number id).symm,
    fun id => (same.rule id).symm, fun id => (same.transitions id).symm⟩

theorem of_withTransitions {transitions : List Transition} (perm : transitions.Perm (net.state id).transitions) :
    net.Reordered (net.withTransitions id transitions) := by
  refine ⟨rfl, rfl, net.read_modify id State.kind fun _ => rfl, net.read_modify id State.number fun _ => rfl,
    net.read_modify id State.rule fun _ => rfl, ?_⟩
  intro there
  rcases net.state_modify id there fun s => { s with transitions := transitions } with same | ⟨rfl, changed⟩
  · exact .of_eq (congrArg State.transitions same)
  · exact (List.Perm.of_eq (congrArg State.transitions changed)).trans perm

/-! ## The shape -/

theorem transitions_eq_singleton {t : Transition} (same : net.Reordered other) (alone : (net.state id).transitions = [t]) :
    (other.state id).transitions = [t] := by
  have perm := same.transitions id
  rw [alone] at perm
  exact List.perm_singleton.mp perm

theorem wellFormed (same : net.Reordered other) (shape : net.WellFormed) : other.WellFormed := by
  have paths := same.samePaths
  have members := fun {id t} => (paths.transitions id t).mp
  constructor
  · intro id listed
    rw [paths.listed] at listed
    rw [paths.number, paths.slot?]
    exact shape.numbered id listed
  · intro id listed t member
    rw [paths.listed] at listed ⊢
    rw [same.kind]
    exact shape.targets id listed t (members member)
  · intro id listed t member invokes
    rw [paths.listed] at listed
    obtain ⟨alone, starts⟩ := shape.invocations id listed t (members member) invokes
    exact ⟨same.transitions_eq_singleton alone, (same.kind t.target).trans starts⟩
  · intro id listed t member invokes
    rw [paths.listed] at listed ⊢
    obtain ⟨next, nextListed, follow, sameRule, kind⟩ := shape.follows id listed t (members member) invokes
    refine ⟨next, nextListed, follow, ?_, ?_⟩
    · rw [same.rule, same.rule]
      exact sameRule
    · rw [same.kind]
      exact kind
  · intro id listed goesOn begins t member plain
    rw [paths.listed] at listed
    rw [same.kind] at goesOn begins
    rw [same.rule, same.rule]
    exact shape.within id listed goesOn begins t (members member) plain

theorem leftRecursive (same : net.Reordered other) (recursive : net.LeftRecursive rule) : other.LeftRecursive rule := by
  obtain ⟨entry, listed, starts, ofRule, p, reaches, t, member, invokes, again⟩ := recursive
  have paths := same.samePaths
  refine ⟨entry, paths.listed ▸ listed, (same.kind entry).trans starts, (same.rule entry).trans ofRule, p,
    paths.reaches reaches, t, (paths.transitions p.state t).mpr member, invokes, (same.rule t.target).trans again⟩

theorem nullable (same : net.Reordered other) (nullable : net.Nullable rule) : other.Nullable rule := by
  obtain ⟨entry, listed, starts, ofRule, stop, reaches, stops, alsoOfRule⟩ := nullable
  have paths := same.samePaths
  exact ⟨entry, paths.listed ▸ listed, (same.kind entry).trans starts, (same.rule entry).trans ofRule, stop,
    paths.reaches reaches, (paths.isRuleStop stop).trans stops, (same.rule stop).trans alsoOfRule⟩

theorem guarded (same : net.Reordered other) (guarded : net.Guarded) : other.Guarded :=
  fun rule both => guarded rule ⟨same.symm.leftRecursive both.1, same.symm.nullable both.2⟩

theorem singleEntry (same : net.Reordered other) (single : net.SingleEntry) : other.SingleEntry := by
  intro first firstListed second secondListed t inFirst u inSecond invokes alsoInvokes sameRule recursive
  have paths := same.samePaths
  rw [paths.listed] at firstListed secondListed
  rw [paths.transitions] at inFirst inSecond
  rw [same.rule, same.rule] at sameRule
  rw [same.rule] at recursive
  exact single first firstListed second secondListed t inFirst u inSecond invokes alsoInvokes sameRule
    (same.symm.leftRecursive recursive)

/-- Whether a link leads somewhere, and where to, does not depend on the order. -/
theorem followState (same : net.Reordered other) (shape : net.WellFormed) (link : Int) :
    other.followState link = net.followState link := by
  have sameSlot := same.samePaths.slot? link
  have forward : ∀ {next}, net.ReturnsTo link next → other.ReturnsTo link next := same.samePaths.returnsTo
  have backward : ∀ {next}, other.ReturnsTo link next → net.ReturnsTo link next := same.samePaths.symm.returnsTo
  have otherShape := same.wellFormed shape
  cases here : net.followState link with
  | ok next =>
      cases next with
      | none => exact absurd here shape.followState_ne_ok_none
      | some next => exact otherShape.followState_eq_ok_iff.mpr (forward (shape.followState_eq_ok_iff.mp here))
  | error fault =>
      cases there : other.followState link with
      | ok next =>
          cases next with
          | none => exact absurd there otherShape.followState_ne_ok_none
          | some next =>
              rw [shape.followState_eq_ok_iff.mpr (backward (otherShape.followState_eq_ok_iff.mp there))] at here
              contradiction
      | error cause =>
          unfold Network.followState at here there
          rw [sameSlot] at there
          cases found : net.slot? link with
          | none =>
              rw [found] at here there
              exact there.symm.trans here
          | some invoker =>
              simp only [found] at here there
              split at here
              · contradiction
              · split at there
                · contradiction
                · exact there.symm.trans here

end Reordered

end Network

end GrammarNet
