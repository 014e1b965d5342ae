import GrammarNet.Proofs.Pushdown.Rooted

/-!
# Networks with the same paths

Paths depend on what transitions there are, not on their order. Two networks have the same paths if their slots, their
vocabularies and their rule stops are the same, and their states have the same numbers, rules and transitions, in whatever
order.
-/

namespace GrammarNet

namespace Network

/-- The networks have the same slots, vocabulary and rule stops, and states with the same number and rule, and with the
same transitions in whatever order. -/
structure SamePaths (net other : Network) : Prop where
  slots : other.slots = net.slots
  maxSymbol : other.maxSymbol = net.maxSymbol
  number : ∀ id, (other.state id).number = (net.state id).number
  rule : ∀ id, (other.state id).rule = (net.state id).rule
  isRuleStop : ∀ id, (other.state id).isRuleStop = (net.state id).isRuleStop
  transitions : ∀ id t, t ∈ (other.state id).transitions ↔ t ∈ (net.state id).transitions

namespace SamePaths

variable {net other : Network} {mode : SearchMode} {p q : Point} {id : StateId} {x : Symbol}

theorem symm (same : net.SamePaths other) : other.SamePaths net :=
  ⟨same.slots.symm, same.maxSymbol.symm, fun id => (same.number id).symm, fun id => (same.rule id).symm,
    fun id => (same.isRuleStop id).symm, fun id t => (same.transitions id t).symm⟩

theorem slot? (same : net.SamePaths other) (number : Int) : other.slot? number = net.slot? number := by
  unfold Network.slot?
  rw [same.slots]

theorem listed (same : net.SamePaths other) : other.listed = net.listed := by
  unfold Network.listed
  rw [same.slots]

theorem labelled {P : Range → Prop} (same : net.SamePaths other) (labelled : net.Labelled P) : other.Labelled P := by
  intro id listed t member
  rw [same.listed] at listed
  rw [same.transitions] at member
  rw [same.maxSymbol]
  exact labelled id listed t member

/-! ## Moves -/

theorem leaves (same : net.SamePaths other) (leaves : net.Leaves mode id) : other.Leaves mode id := by
  unfold Leaves
  rw [same.isRuleStop]
  exact leaves

theorem passable (same : net.SamePaths other) (passable : net.Passable mode p) : other.Passable mode p := by
  obtain ⟨id, stack⟩ := p
  cases stack with
  | nil => exact fun leaves => passable (same.symm.leaves leaves)
  | cons link outer =>
      by_cases invoked : 0 ≤ link
      · rw [passable_invoked_iff invoked, same.isRuleStop]
        exact (passable_invoked_iff invoked).mp passable
      · have negative : link < 0 := Int.not_le.mp invoked
        rw [passable_root_iff negative]
        exact fun ends => (passable_root_iff negative).mp passable ⟨same.symm.leaves ends.1, ends.2⟩

theorem returnsTo (same : net.SamePaths other) {link : Int} {next : StateId} (returns : net.ReturnsTo link next) :
    other.ReturnsTo link next := by
  obtain ⟨invoker, found, t, member, follow⟩ := returns
  exact ⟨invoker, (same.slot? link).trans found, t, (same.transitions invoker t).mpr member, follow⟩

theorem move (same : net.SamePaths other) (move : net.Move mode p q) : other.Move mode p q := by
  cases move with
  | @pass _ t passable member passes =>
      rw [← same.transitions] at member
      exact .pass (same.passable passable) member passes
  | @enter _ t passable member invokes =>
      rw [← same.number]
      rw [← same.transitions] at member
      exact .enter (same.passable passable) member invokes
  | @leave id next link outer stops invoked returns =>
      rw [← same.isRuleStop] at stops
      exact .leave stops invoked (same.returnsTo returns)

theorem reaches (same : net.SamePaths other) (reaches : net.Reaches mode p q) : other.Reaches mode p q :=
  Reaches.invariant (P := fun q => other.Reaches mode p q) (fun here move => here.append (same.move move)) reaches
    (.refl p)

theorem canEnd (same : net.SamePaths other) (canEnd : net.CanEnd id) : other.CanEnd id := by
  obtain ⟨stop, reaches, stops⟩ := canEnd
  exact ⟨stop, same.reaches reaches, (same.isRuleStop stop).trans stops⟩

/-! ## Symbols -/

theorem halts (same : net.SamePaths other) (halts : net.Halts mode p x) : other.Halts mode p x := by
  obtain ⟨id, stack⟩ := p
  cases stack with
  | nil => exact ⟨same.leaves halts.1, halts.2⟩
  | cons link outer => exact ⟨same.leaves halts.1, halts.2⟩

theorem emits (same : net.SamePaths other) (emits : net.Emits mode p x) : other.Emits mode p x := by
  cases emits with
  | halt halts => exact .halt (same.halts halts)
  | consume passable member yields =>
      rw [← same.transitions] at member
      rw [← same.maxSymbol] at yields
      exact .consume (same.passable passable) member yields
  | hit passable member predicate blocked =>
      rw [← same.transitions] at member
      exact .hit (same.passable passable) member predicate blocked

theorem first (same : net.SamePaths other) (first : net.First mode p x) : other.First mode p x := by
  obtain ⟨steps, q, path, emits⟩ := first
  obtain ⟨more, otherPath⟩ := same.reaches ⟨steps, path⟩
  exact ⟨more, q, otherPath, same.emits emits⟩

end SamePaths

end Network

end GrammarNet
